import Supervisor.Proofs.Wire.RoundTrip
import Supervisor.Wire.FrameBuffer

/-!
# Frames come out of a stream as they went in

A sender joins its frames into one stream of bytes, the network cuts the
stream anywhere, and a consumer feeds the pieces to a `FrameBuffer` and asks
it for payloads whenever it likes.  This module proves that the consumer gets
the payloads of the sender: none lost, doubled, merged or split.

There are three groups.

* What the operations of a buffer do to its unparsed bytes.  `Tidy` bounds the
  consumed part of the buffer; every operation restores it, and feeding needs
  it, for bytes can only be appended to what is unparsed if no more than the
  whole buffer is consumed.
* One request.  `nextFrame_cases` lists the outcomes; a well-formed stream
  cannot meet the last one.
* A whole run.  `Awaits` is the invariant: the unparsed bytes and the bytes
  still to be fed are together the frames still to be handed out.
-/

namespace Supervisor.Wire

namespace FrameBuffer

/-! ## The operations and the unparsed bytes -/

/-- At most half of the buffer is consumed. -/
def Tidy (r : FrameBuffer) : Prop :=
  r.start ≤ r.buffer.length / 2

theorem tidy_empty (limit : Nat) : (empty limit).Tidy :=
  Nat.zero_le _

theorem Tidy.feed {r : FrameBuffer} (h : r.Tidy) (b : Bytes) : (r.feed b).Tidy := by
  show r.start ≤ (r.buffer ++ b).length / 2
  unfold Tidy at h
  rw [List.length_append]
  omega

/-- Compacting makes any buffer tidy. -/
theorem tidy_compact (r : FrameBuffer) : r.compact.Tidy := by
  unfold compact
  split
  · exact Nat.zero_le _
  · split
    · exact Nat.zero_le _
    · rename_i h
      exact Nat.le_of_not_lt h

theorem tidy_consume (r : FrameBuffer) (count : Nat) : (r.consume count).Tidy :=
  tidy_compact _

theorem Tidy.unparsed_feed {r : FrameBuffer} (h : r.Tidy) (b : Bytes) :
    (r.feed b).unparsed = r.unparsed ++ b := by
  have hle : r.start ≤ r.buffer.length := Nat.le_trans h (Nat.div_le_self _ _)
  exact List.drop_append_of_le_length hle

theorem limit_compact (r : FrameBuffer) : r.compact.limit = r.limit := by
  unfold compact
  split
  · rfl
  · split <;> rfl

theorem limit_consume (r : FrameBuffer) (count : Nat) : (r.consume count).limit = r.limit :=
  limit_compact _

/-! ## One request -/

/-- With a terminator among the unparsed bytes, the bytes before it are handed
out and those behind it stay. -/
theorem nextFrame_of_terminated {r : FrameBuffer} {p rest : Bytes} (hp : terminator ∉ p)
    (h : r.unparsed = p ++ terminator :: rest) :
    r.nextFrame = (r.consume (p.length + 1), .ok (some p)) ∧
      (r.consume (p.length + 1)).unparsed = rest := by
  have hlen : p.length < r.unparsed.length := by
    rw [h, List.length_append, List.length_cons]
    omega
  have hdrop : (p ++ terminator :: rest).drop (p.length + 1) = rest := by
    rw [← List.drop_drop, List.drop_left, List.drop_one, List.tail_cons]
  refine ⟨?_, by rw [unparsed_consume, h, hdrop]⟩
  have htake : r.unparsed.takeWhile (· ≠ terminator) = p := by
    rw [h, takeWhile_ne_append_cons hp]
  simp only [nextFrame, htake, if_pos hlen]

/-- Without a terminator and within the limit, nothing is handed out and
nothing changes. -/
theorem nextFrame_of_unterminated {r : FrameBuffer} (h : terminator ∉ r.unparsed)
    (hlimit : r.unparsed.length ≤ r.limit) : r.nextFrame = (r, .ok none) := by
  simp only [nextFrame, takeWhile_ne_of_notMem h, Nat.lt_irrefl, if_false,
    if_neg (Nat.not_lt.mpr hlimit)]

/-- Without a terminator and beyond the limit, the request fails and nothing
changes. -/
theorem nextFrame_of_overlong {r : FrameBuffer} (h : terminator ∉ r.unparsed)
    (hlimit : r.limit < r.unparsed.length) :
    r.nextFrame = (r, .error (.protocol .frameTooLong)) := by
  simp only [nextFrame, takeWhile_ne_of_notMem h, Nat.lt_irrefl, if_false, if_pos hlimit]

/-- A request finds a payload and takes it out, or it finds no terminator and
changes nothing; then it fails if the bytes are too many. -/
theorem nextFrame_cases (r : FrameBuffer) :
    (∃ r' payload, r.nextFrame = (r', .ok (some payload)) ∧ r'.limit = r.limit ∧
        r.unparsed = payload ++ terminator :: r'.unparsed ∧ terminator ∉ payload) ∨
      (terminator ∉ r.unparsed ∧ r.unparsed.length ≤ r.limit ∧ r.nextFrame = (r, .ok none)) ∨
      (terminator ∉ r.unparsed ∧ r.limit < r.unparsed.length ∧
        r.nextFrame = (r, .error (.protocol .frameTooLong))) := by
  by_cases hmem : terminator ∈ r.unparsed
  · left
    obtain ⟨payload, rest, hunparsed, hpayload⟩ := List.eq_append_cons_of_mem hmem
    obtain ⟨hnext, hrest⟩ := nextFrame_of_terminated hpayload hunparsed
    exact ⟨_, payload, hnext, limit_consume r _, by rw [hrest]; exact hunparsed, hpayload⟩
  · right
    rcases Nat.lt_or_ge r.limit r.unparsed.length with hlong | hshort
    · exact Or.inr ⟨hmem, hlong, nextFrame_of_overlong hmem hlong⟩
    · exact Or.inl ⟨hmem, hshort, nextFrame_of_unterminated hmem hshort⟩

/-! ## A whole run -/

/-- What a consumer does with a buffer. -/
inductive Call where
  /-- Feeds the bytes that arrived. -/
  | feed (chunk : Bytes)
  /-- Asks for the next payload. -/
  | next

/-- All bytes fed by some calls. -/
def fed : List Call → Bytes
  | [] => []
  | .feed chunk :: calls => chunk ++ fed calls
  | .next :: calls => fed calls

/-- Performs calls in order.  Yields the outcomes of the requests. -/
def perform (r : FrameBuffer) : List Call → FrameBuffer × List (Except Error (Option Bytes))
  | [] => (r, [])
  | .feed chunk :: calls => (r.feed chunk).perform calls
  | .next :: calls =>
    let (r, outcome) := r.nextFrame
    let (r, outcomes) := r.perform calls
    (r, outcome :: outcomes)

/-- The payloads that some requests handed out. -/
def handedOut (outcomes : List (Except Error (Option Bytes))) : List Bytes :=
  outcomes.filterMap fun
    | .ok payload => payload
    | .error _ => none

variable {α : Type} [Packable α]

/-- The frames of `vs` are still to be handed out: the unparsed bytes and the
`pending` ones, which are still to be fed, are together these frames. -/
structure Awaits (r : FrameBuffer) (vs : List α) (pending : Bytes) : Prop where
  tidy : r.Tidy
  stream : r.unparsed ++ pending = vs.flatMap frame
  short : ∀ v ∈ vs, (pack v).length ≤ r.limit

theorem Awaits.feed {r : FrameBuffer} {vs : List α} {chunk pending : Bytes}
    (h : r.Awaits vs (chunk ++ pending)) : (r.feed chunk).Awaits vs pending where
  tidy := h.tidy.feed chunk
  stream := by rw [h.tidy.unparsed_feed, List.append_assoc, h.stream]
  short := h.short

theorem flatMap_frame_cons (v : α) (vs : List α) :
    (v :: vs).flatMap frame = pack v ++ terminator :: vs.flatMap frame := by
  rw [List.flatMap_cons, frame, List.append_assoc, List.singleton_append]

/-- As long as no whole frame has arrived, the unparsed bytes are the
beginning of one. -/
theorem Awaits.length_unparsed {r : FrameBuffer} {vs : List α} {pending : Bytes}
    (h : r.Awaits vs pending) (hnone : terminator ∉ r.unparsed) :
    r.unparsed.length ≤ r.limit := by
  cases vs with
  | nil =>
    have hnil : r.unparsed = [] := (List.append_eq_nil_iff.mp h.stream).1
    rw [hnil]
    exact Nat.zero_le _
  | cons v vs =>
    have hshort := h.short v List.mem_cons_self
    have hstream := h.stream
    rw [flatMap_frame_cons] at hstream
    rcases List.append_eq_append_iff.mp hstream with ⟨rest, hpack, _⟩ | ⟨rest, hunparsed, hrest⟩
    · rw [hpack, List.length_append] at hshort
      omega
    · cases rest with
      | nil =>
        rw [hunparsed, List.append_nil]
        exact hshort
      | cons b rest =>
        -- then the terminator of the frame would be among the unparsed bytes
        obtain ⟨rfl, _⟩ := List.cons.inj hrest
        exact absurd (hunparsed ▸ List.mem_append_right _ List.mem_cons_self) hnone

/-- One request hands out the first frame awaited, or nothing if that has not
arrived as a whole. -/
theorem Awaits.next {r : FrameBuffer} {vs : List α} {pending : Bytes}
    (h : r.Awaits vs pending) :
    terminator ∉ r.unparsed ∧ r.nextFrame = (r, .ok none) ∨
      ∃ v rest, vs = v :: rest ∧ r.nextFrame.2 = .ok (some (pack v)) ∧
        r.nextFrame.1.Awaits rest pending := by
  by_cases hmem : terminator ∈ r.unparsed
  · obtain ⟨p, tail, hunparsed, hp⟩ := List.eq_append_cons_of_mem hmem
    have hstream := h.stream
    rw [hunparsed, List.append_assoc, List.cons_append] at hstream
    cases vs with
    | nil => simp at hstream
    | cons v rest =>
      rw [flatMap_frame_cons] at hstream
      obtain ⟨rfl, htail⟩ := append_cons_inj hp (terminator_notMem_pack v) hstream
      obtain ⟨hnext, hrest⟩ := nextFrame_of_terminated hp hunparsed
      refine Or.inr ⟨v, rest, rfl, by rw [hnext], ?_⟩
      rw [hnext]
      refine ⟨tidy_consume _ _, by rw [hrest, htail], fun w hw => ?_⟩
      rw [limit_consume]
      exact h.short w (List.mem_cons_of_mem _ hw)
  · exact Or.inl ⟨hmem, nextFrame_of_unterminated hmem (h.length_unparsed hmem)⟩

/-- With nothing left to feed, a request yields nothing exactly if no frame is
awaited. -/
theorem Awaits.nextFrame_eq_none_iff {r : FrameBuffer} {vs : List α} (h : r.Awaits vs []) :
    r.nextFrame.2 = .ok none ↔ vs = [] := by
  have hstream := h.stream
  rw [List.append_nil] at hstream
  rcases h.next with ⟨hmem, hnext⟩ | ⟨v, ws, rfl, hnext, _⟩
  · rw [hnext, eq_self, true_iff]
    cases vs with
    | nil => rfl
    | cons v ws =>
      rw [hstream, flatMap_frame_cons] at hmem
      exact absurd (List.mem_append_right _ List.mem_cons_self) hmem
  · simp [hnext]

/-- Over a whole run every request succeeds.  The payloads handed out are
those of the first values awaited, and the buffer goes on to await the
others. -/
theorem Awaits.perform (calls : List Call) :
    ∀ {r : FrameBuffer} {vs : List α} {pending : Bytes}, r.Awaits vs (fed calls ++ pending) →
      (∀ outcome ∈ (r.perform calls).2, ∃ payload, outcome = .ok payload) ∧
        ∃ taken rest, vs = taken ++ rest ∧
          handedOut (r.perform calls).2 = taken.map pack ∧
          (r.perform calls).1.Awaits rest pending := by
  induction calls with
  | nil =>
    intro r vs pending h
    exact ⟨by simp [FrameBuffer.perform], [], vs, rfl, rfl, h⟩
  | cons call calls ih =>
    intro r vs pending h
    cases call with
    | feed chunk =>
      rw [fed, List.append_assoc] at h
      exact ih h.feed
    | next =>
      rw [fed] at h
      rcases h.next with ⟨_, hnext⟩ | ⟨v, ws, rfl, hpayload, hawaits⟩
      · obtain ⟨hok, taken, rest, hvs, hout, hrest⟩ := ih h
        simp only [FrameBuffer.perform, hnext]
        refine ⟨?_, taken, rest, hvs, hout, hrest⟩
        intro outcome hmem
        rcases List.mem_cons.mp hmem with rfl | hmem
        · exact ⟨none, rfl⟩
        · exact hok outcome hmem
      · obtain ⟨hok, taken, rest, rfl, hout, hrest⟩ := ih hawaits
        simp only [FrameBuffer.perform, hpayload]
        refine ⟨?_, v :: taken, rest, rfl, ?_, hrest⟩
        · intro outcome hmem
          rcases List.mem_cons.mp hmem with rfl | hmem
          · exact ⟨some (pack v), rfl⟩
          · exact hok outcome hmem
        · rw [List.map_cons, ← hout]
          rfl

theorem awaits_empty {limit : Nat} {vs : List α} (h : ∀ v ∈ vs, (pack v).length ≤ limit) :
    (empty limit).Awaits vs (vs.flatMap frame) :=
  ⟨tidy_empty limit, rfl, h⟩

/-- What a consumer gets that starts with an empty buffer and is sent the
frames of `vs`. -/
structure Delivers (limit : Nat) (vs : List α) (calls : List Call) : Prop where
  /-- No request fails. -/
  succeeds : ∀ outcome ∈ ((empty limit).perform calls).2, ∃ payload, outcome = .ok payload
  /-- The payloads handed out so far unpack to the first values sent. -/
  inOrder : (handedOut ((empty limit).perform calls).2).map unpack <+: vs.map .ok
  /-- Once all bytes are fed, a request yields nothing exactly if all values
  were handed out. -/
  complete : fed calls = vs.flatMap frame →
    (((empty limit).perform calls).1.nextFrame.2 = .ok none ↔
      (handedOut ((empty limit).perform calls).2).map unpack = vs.map .ok)

theorem map_unpack_pack {vs : List α} (h : ∀ v ∈ vs, Faithful v) :
    (vs.map pack).map unpack = vs.map .ok := by
  rw [List.map_map]
  exact List.map_congr_left fun v hv => (h v hv).unpack_pack

/-- A buffer delivers faithful values whose payloads are within its limit. -/
theorem delivers_of_faithful {limit : Nat} {vs : List α} {calls : List Call}
    (hfaithful : ∀ v ∈ vs, Faithful v) (hshort : ∀ v ∈ vs, (pack v).length ≤ limit)
    (hfed : fed calls <+: vs.flatMap frame) : Delivers limit vs calls := by
  obtain ⟨pending, hpending⟩ := hfed
  have hstart := awaits_empty hshort
  rw [← hpending] at hstart
  obtain ⟨hok, taken, rest, rfl, hout, hrest⟩ := hstart.perform calls
  have hunpack : (handedOut ((empty limit).perform calls).2).map unpack = taken.map .ok := by
    rw [hout]
    exact map_unpack_pack fun v hv => hfaithful v (List.mem_append_left rest hv)
  refine ⟨hok, ?_, fun hall => ?_⟩
  · rw [hunpack, List.map_append]
    exact List.prefix_append _ _
  · have hnil : pending = [] := by
      rw [← hpending] at hall
      exact List.append_right_eq_self.mp hall.symm
    subst hnil
    have hrest' : taken.map (Except.ok (ε := Error)) = (taken ++ rest).map .ok ↔ rest = [] := by
      simp
    rw [hunpack, hrest.nextFrame_eq_none_iff, hrest']

/-- Messages and envelopes arrive as they were sent.  Their frames are joined
into one stream, of which `calls` feeds any part from the beginning, in any
chunks and with requests anywhere in between.  Then no request fails, the
payloads handed out unpack to the first values sent, in their order, and they
are all of them exactly if the whole stream was fed and the next request
yields nothing. -/
theorem frames_arrive_in_order (limit : UInt64) (calls : List Call) :
    (∀ ms : List Message, (∀ m ∈ ms, (pack m).length ≤ limit.toNat) →
      fed calls <+: ms.flatMap frame → Delivers limit.toNat ms calls) ∧
    (∀ es : List Envelope, (∀ e ∈ es, (pack e).length ≤ limit.toNat) →
      fed calls <+: es.flatMap frame → Delivers limit.toNat es calls) := by
  have hlimit := limit.toNat_lt
  refine ⟨fun ms hshort => ?_, fun es hshort => ?_⟩
  · refine delivers_of_faithful (fun m hm => Message.faithful ?_) hshort
    exact Message.addressable_of_length_pack (Nat.lt_of_le_of_lt (hshort m hm) hlimit)
  · refine delivers_of_faithful (fun e he => Envelope.faithful ?_) hshort
    exact Envelope.addressable_of_length_pack (Nat.lt_of_le_of_lt (hshort e he) hlimit)

/-- A raw and an escaped payload, cut inside the first frame and behind the
prefix of the second; then an envelope whose frame is cut before its
terminator. -/
theorem frames_arrive_in_order_cut :
    let ms := [Message.text "hi", .text "nul\x00\\"]
    let calls := [Call.feed [64, 104], .next, .feed [], .feed [105, 0, 48], .next, .next,
      .feed [92, 48, 5, 110, 117, 108, 92, 48, 92, 92, 0], .next]
    let es := [Envelope.mk ⟨7⟩ .server 0 (.command .stop)]
    let calls' := [Call.feed [48, 7, 4, 92, 48, 3, 92, 48], .next, .feed [0], .next]
    (∀ m ∈ ms, (pack m).length ≤ (16 : UInt64).toNat) ∧ fed calls = ms.flatMap frame ∧
      Delivers (16 : UInt64).toNat ms calls ∧ Delivers (16 : UInt64).toNat es calls' := by
  intro ms calls es calls'
  have hshort : ∀ m ∈ ms, (pack m).length ≤ (16 : UInt64).toNat := by decide +kernel
  have hfed : fed calls = ms.flatMap frame := by decide +kernel
  exact ⟨hshort, hfed, (frames_arrive_in_order 16 calls).1 ms hshort (hfed ▸ List.prefix_rfl),
    (frames_arrive_in_order 16 calls').2 es (by decide +kernel) (by decide +kernel)⟩

end FrameBuffer

end Supervisor.Wire
