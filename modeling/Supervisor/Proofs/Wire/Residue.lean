import Mathlib.Data.List.DropRight
import Supervisor.Proofs.Wire.Framing

/-!
# What is left when all frames are taken out

A consumer that takes frames until there are none left keeps the bytes behind
the last terminator and nothing else, also if it gives up because they are too
many.  `residue` computes these bytes from the stream alone.  It can be computed
piece by piece as well (`residue_residue_append`), so it makes no difference
what was taken out before the last piece arrived.

`Splits` adds the payloads that are taken out: the stream is these payloads, each
with a terminator behind it, and the residue.  There is one way only to see a
stream like that (`Splits.unique`), and draining finds it (`drain_splits`).
-/

namespace Supervisor.Wire

/-- The bytes behind the last terminator. -/
def residue (b : Bytes) : Bytes :=
  b.rtakeWhile (· ≠ terminator)

theorem terminator_notMem_residue (b : Bytes) : terminator ∉ residue b := by
  intro hmem
  have hne := List.mem_rtakeWhile_imp hmem
  simp at hne

theorem residue_of_notMem {b : Bytes} (h : terminator ∉ b) : residue b = b :=
  List.rtakeWhile_eq_self_iff.mpr fun _ hx => decide_eq_true fun hsame => h (hsame ▸ hx)

theorem residue_concat (b : Bytes) (x : UInt8) :
    residue (b ++ [x]) = if x = terminator then [] else residue b ++ [x] := by
  unfold residue
  rw [List.rtakeWhile_concat]
  by_cases hx : x = terminator
  · simp [hx]
  · simp [hx]

/-- Nothing up to a terminator is left. -/
theorem residue_terminated (b rest : Bytes) :
    residue (b ++ terminator :: rest) = residue rest := by
  induction rest using List.reverseRecOn with
  | nil =>
    rw [residue_concat, if_pos rfl]
    rfl
  | append_singleton rest x ih =>
    rw [← List.cons_append, ← List.append_assoc, residue_concat, residue_concat, ih]

/-- The residue of a stream may replace all that the stream brought so far. -/
theorem residue_residue_append (b more : Bytes) :
    residue (residue b ++ more) = residue (b ++ more) := by
  induction more using List.reverseRecOn with
  | nil =>
    rw [List.append_nil, List.append_nil]
    exact residue_of_notMem (terminator_notMem_residue b)
  | append_singleton more x ih =>
    rw [← List.append_assoc, ← List.append_assoc, residue_concat, residue_concat, ih]

/-- The bytes are these payloads, each with a terminator behind it, and the
beginning of another one. -/
structure Splits (b : Bytes) (payloads : List Bytes) (rest : Bytes) : Prop where
  joined : payloads.flatMap (· ++ [terminator]) ++ rest = b
  whole : ∀ payload ∈ payloads, terminator ∉ payload
  unfinished : terminator ∉ rest

namespace Splits

variable {b : Bytes} {payloads payloads' : List Bytes} {rest rest' : Bytes}

theorem of_notMem (h : terminator ∉ b) : Splits b [] b :=
  ⟨rfl, fun _ h => (nomatch h), h⟩

theorem cons {payload : Bytes} (hpayload : terminator ∉ payload) (h : Splits b payloads rest) :
    Splits (payload ++ terminator :: b) (payload :: payloads) rest where
  joined := by
    rw [List.flatMap_cons, List.append_assoc, h.joined, List.append_assoc, List.singleton_append]
  whole := List.forall_mem_cons.mpr ⟨hpayload, h.whole⟩
  unfinished := h.unfinished

/-- What was left is split again with the bytes that follow. -/
theorem append {more : Bytes} (h : Splits b payloads rest)
    (hmore : Splits (rest ++ more) payloads' rest') :
    Splits (b ++ more) (payloads ++ payloads') rest' where
  joined := by
    rw [List.flatMap_append, List.append_assoc, hmore.joined, ← List.append_assoc, h.joined]
  whole payload hmem := (List.mem_append.mp hmem).elim (h.whole payload) (hmore.whole payload)
  unfinished := hmore.unfinished

/-- What is left are the bytes behind the last terminator. -/
theorem rest_eq (h : Splits b payloads rest) : rest = residue b := by
  induction payloads generalizing b with
  | nil =>
    rw [← h.joined]
    exact (residue_of_notMem h.unfinished).symm
  | cons payload payloads ih =>
    obtain ⟨hpayload, hwhole⟩ := List.forall_mem_cons.mp h.whole
    rw [ih ⟨rfl, hwhole, h.unfinished⟩, ← h.joined, List.flatMap_cons, List.append_assoc,
      List.append_assoc, List.singleton_append, residue_terminated]

theorem joined_cons {payload : Bytes} (h : Splits b (payload :: payloads) rest) :
    ∃ b', b = payload ++ terminator :: b' ∧ Splits b' payloads rest := by
  obtain ⟨-, hwhole⟩ := List.forall_mem_cons.mp h.whole
  refine ⟨_, ?_, rfl, hwhole, h.unfinished⟩
  rw [← h.joined, List.flatMap_cons, List.append_assoc, List.append_assoc, List.singleton_append]

/-- Bytes are split in one way only. -/
theorem unique (h : Splits b payloads rest) (h' : Splits b payloads' rest') :
    payloads = payloads' := by
  induction payloads generalizing b payloads' with
  | nil =>
    cases payloads' with
    | nil => rfl
    | cons payload' payloads' =>
      obtain ⟨b', rfl, -⟩ := h'.joined_cons
      have hrest : rest = payload' ++ terminator :: b' := h.joined
      exact absurd (hrest ▸ List.mem_append_right _ List.mem_cons_self) h.unfinished
  | cons payload payloads ih =>
    obtain ⟨tail, rfl, htail⟩ := h.joined_cons
    cases payloads' with
    | nil =>
      have hrest : rest' = payload ++ terminator :: tail := h'.joined
      exact absurd (hrest ▸ List.mem_append_right _ List.mem_cons_self) h'.unfinished
    | cons payload' payloads' =>
      obtain ⟨tail', hboth, htail'⟩ := h'.joined_cons
      obtain ⟨rfl, rfl⟩ := append_cons_inj (h.whole payload List.mem_cons_self)
        (h'.whole payload' List.mem_cons_self) hboth
      rw [ih htail htail']

end Splits

namespace FrameBuffer

/-- What the bytes behind the last terminator mean to a consumer: more data is
needed, or they are too many. -/
def verdictOn (limit : Nat) (rest : Bytes) : Option Error :=
  if limit < rest.length then some (.protocol .frameTooLong) else none

theorem verdictOn_eq_none_iff {limit : Nat} {rest : Bytes} :
    verdictOn limit rest = none ↔ rest.length ≤ limit := by
  rw [verdictOn, ite_eq_right_iff, ← Nat.not_lt]
  exact forall_congr' fun _ => iff_of_false (Option.some_ne_none _) id

/-- Draining splits what is unparsed, keeps what is left, and fails if that is
beyond the limit. -/
theorem drain_splits (r : FrameBuffer) :
    Splits r.unparsed r.drain.2.1 r.drain.1.unparsed ∧ r.drain.1.limit = r.limit ∧
      r.drain.2.2 = verdictOn r.limit r.drain.1.unparsed := by
  fun_induction FrameBuffer.drain r with
  | case1 r r' payload hnext last payloads failure hlast ih =>
    rw [hlast] at ih
    rcases r.nextFrame_cases with ⟨_, _, h, hlimit, hunparsed, hpayload⟩ | ⟨_, _, h⟩ | ⟨_, _, h⟩
    · cases hnext.symm.trans h
      rw [hunparsed, ← hlimit]
      exact ⟨ih.1.cons hpayload, ih.2⟩
    · cases hnext.symm.trans h
    · cases hnext.symm.trans h
  | case2 r r' hnext =>
    rcases r.nextFrame_cases with ⟨_, _, h, _⟩ | ⟨hmem, hlimit, h⟩ | ⟨_, _, h⟩
    · cases hnext.symm.trans h
    · cases hnext.symm.trans h
      exact ⟨.of_notMem hmem, rfl, (if_neg (Nat.not_lt.mpr hlimit)).symm⟩
    · cases hnext.symm.trans h
  | case3 r r' e hnext =>
    rcases r.nextFrame_cases with ⟨_, _, h, _⟩ | ⟨_, _, h⟩ | ⟨hmem, hlimit, h⟩
    · cases hnext.symm.trans h
    · cases hnext.symm.trans h
    · cases hnext.symm.trans h
      exact ⟨.of_notMem hmem, rfl, (if_pos hlimit).symm⟩

/-- Draining leaves the residue.  It fails if that is beyond the limit. -/
theorem drain_residue (r : FrameBuffer) :
    r.drain.1.unparsed = residue r.unparsed ∧ r.drain.1.limit = r.limit ∧
      (r.drain.2.2 = none ↔ (residue r.unparsed).length ≤ r.limit) := by
  obtain ⟨hsplits, hlimit, hverdict⟩ := r.drain_splits
  refine ⟨hsplits.rest_eq, hlimit, ?_⟩
  rw [hverdict, verdictOn_eq_none_iff, hsplits.rest_eq]

end FrameBuffer

end Supervisor.Wire
