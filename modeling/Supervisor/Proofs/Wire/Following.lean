import Supervisor.Proofs.Wire.Framing

/-!
# Reading a stream of frames from the middle

A consumer that has got any beginning of a stream of frames hands out the first
values of the stream.  `Framing` says so for a consumer that knows how long the
frames are.  Here the frames may be longer than the limit of the buffer, so a
request may fail; then it changes nothing.

`Follows` is the invariant: what is unparsed is the beginning of the frames to
come.  `Follows.next` is about one request and `Follows.drain` about as many as
succeed.
-/

namespace Supervisor.Wire.FrameBuffer

theorem Tidy.nextFrame {r : FrameBuffer} (h : r.Tidy) : r.nextFrame.1.Tidy := by
  unfold FrameBuffer.nextFrame
  dsimp only
  split
  · exact tidy_consume _ _
  · split
    · exact h
    · exact h

theorem Tidy.drain {r : FrameBuffer} (h : r.Tidy) : r.drain.1.Tidy := by
  fun_induction FrameBuffer.drain r with
  | case1 r r' payload hnext last payloads failure hlast ih =>
    have hr' := h.nextFrame
    rw [hnext] at hr'
    rw [hlast] at ih
    exact ih hr'
  | case2 r r' hnext =>
    have hr' := h.nextFrame
    rwa [hnext] at hr'
  | case3 r r' e hnext =>
    have hr' := h.nextFrame
    rwa [hnext] at hr'

variable {α : Type} [Packable α]

/-- What is unparsed is the beginning of the frames of `vs`. -/
structure Follows (r : FrameBuffer) (vs : List α) : Prop where
  tidy : r.Tidy
  stream : r.unparsed <+: vs.flatMap frame

theorem follows_empty (limit : Nat) (vs : List α) : (empty limit).Follows vs :=
  ⟨tidy_empty limit, List.nil_prefix⟩

/-- A request hands out the first value to come, or nothing, and then it leaves
the buffer as it is. -/
theorem Follows.next {r : FrameBuffer} {vs : List α} (h : r.Follows vs) :
    (r.nextFrame.1 = r ∧ ∀ payload, r.nextFrame.2 ≠ .ok (some payload)) ∨
      ∃ v rest, vs = v :: rest ∧ r.nextFrame.2 = .ok (some (pack v)) ∧
        r.unparsed = frame v ++ r.nextFrame.1.unparsed ∧ r.nextFrame.1.Follows rest := by
  have htidy := h.tidy.nextFrame
  rcases r.nextFrame_cases with ⟨r', payload, hnext, -, hunparsed, hpayload⟩ |
    ⟨-, -, hnext⟩ | ⟨-, -, hnext⟩
  · right
    rw [hnext] at htidy ⊢
    obtain ⟨pending, hstream⟩ := h.stream
    rw [hunparsed, List.append_assoc, List.cons_append] at hstream
    cases vs with
    | nil => simp at hstream
    | cons v rest =>
      rw [flatMap_frame_cons] at hstream
      obtain ⟨rfl, htail⟩ := append_cons_inj hpayload (terminator_notMem_pack v) hstream
      refine ⟨v, rest, rfl, rfl, ?_, htidy, pending, htail⟩
      rw [hunparsed, frame, List.append_assoc, List.singleton_append]
  · rw [hnext]
    exact Or.inl ⟨rfl, fun _ => by simp⟩
  · rw [hnext]
    exact Or.inl ⟨rfl, fun _ => by simp⟩

/-- Draining hands out the first values to come. -/
theorem Follows.drain {r : FrameBuffer} {vs : List α} (h : r.Follows vs) :
    ∃ taken rest, vs = taken ++ rest ∧ r.drain.2.1 = taken.map pack ∧
      r.unparsed = taken.flatMap frame ++ r.drain.1.unparsed ∧ r.drain.1.Follows rest := by
  fun_induction FrameBuffer.drain r generalizing vs with
  | case1 r r' payload hnext last payloads failure hlast ih =>
    rcases h.next with ⟨_, hnone⟩ | ⟨v, rest, rfl, hpayload, hunparsed, hrest⟩
    · rw [hnext] at hnone
      exact absurd rfl (hnone payload)
    · rw [hnext] at hpayload hunparsed hrest
      obtain ⟨taken, left, rfl, hpayloads, hunparsed', hleft⟩ := ih hrest
      rw [hlast] at hpayloads hunparsed' hleft
      cases hpayload
      refine ⟨v :: taken, left, rfl, ?_, ?_, hleft⟩
      · rw [List.map_cons, ← hpayloads]
      · rw [List.flatMap_cons, List.append_assoc, ← hunparsed', hunparsed]
  | case2 r r' hnext =>
    rcases h.next with ⟨hsame, _⟩ | ⟨v, rest, rfl, hpayload, _, _⟩
    · rw [hnext] at hsame
      subst hsame
      exact ⟨[], vs, rfl, rfl, rfl, h⟩
    · rw [hnext] at hpayload
      cases hpayload
  | case3 r r' e hnext =>
    rcases h.next with ⟨hsame, _⟩ | ⟨v, rest, rfl, hpayload, _, _⟩
    · rw [hnext] at hsame
      subst hsame
      exact ⟨[], vs, rfl, rfl, rfl, h⟩
    · rw [hnext] at hpayload
      cases hpayload

end Supervisor.Wire.FrameBuffer
