import Supervisor.Proofs.Wire.Following
import Supervisor.Proofs.Wire.Residue

/-!
# Frames do not depend on how a stream is cut

A stream delivers its bytes in chunks, and where it cuts them is its own affair.
A consumer that takes all frames out after each chunk gets the same frames from
every cut, and after the last chunk the same verdict, which is that more data is
needed or that the frame is too long.

The invariant is `Progress.After`: what was taken out so far and what is left
split all bytes that came so far.  A chunk only splits what was left once more
(`Progress.After.chunk`), and bytes are split in one way only.

The verdicts on the way may depend on the cut: a long frame is refused as long as
its end is missing, and handed out as soon as it is there.  With frames within
the limit there is no such verdict (`Splits.length_beginning`).
-/

namespace Supervisor.Wire

/-- If all payloads and the rest are short, then the bytes were short at any time
when there was no terminator among them. -/
theorem Splits.length_beginning {b more rest : Bytes} {payloads : List Bytes} {limit : Nat}
    (h : Splits (b ++ more) payloads rest) (hb : terminator ∉ b)
    (hpayloads : ∀ payload ∈ payloads, payload.length ≤ limit) (hrest : rest.length ≤ limit) :
    b.length ≤ limit := by
  cases payloads with
  | nil =>
    have hjoined : rest = b ++ more := h.joined
    rw [hjoined, List.length_append] at hrest
    omega
  | cons payload payloads =>
    have hpayload := hpayloads payload List.mem_cons_self
    obtain ⟨tail, hsame, -⟩ := h.joined_cons
    rcases List.append_eq_append_iff.mp hsame with ⟨missing, rfl, -⟩ | ⟨surplus, hbytes, hmore⟩
    · rw [List.length_append] at hpayload
      omega
    · cases surplus with
      | nil =>
        rw [hbytes, List.append_nil]
        exact hpayload
      | cons x surplus =>
        -- then the terminator behind the payload would be among the bytes
        obtain ⟨rfl, -⟩ := List.cons.inj hmore
        exact absurd (hbytes ▸ List.mem_append_right _ List.mem_cons_self) hb

namespace FrameBuffer

/-! ## A run -/

/-- What a consumer has after some chunks. -/
structure Progress where
  buffer : FrameBuffer
  /-- All payloads taken out so far. -/
  payloads : List Bytes
  /-- The failure that ended the last draining; without one, more data is needed. -/
  verdict : Option Error

/-- Feeds a chunk and takes out all frames that there are. -/
def Progress.chunk (s : Progress) (chunk : Bytes) : Progress :=
  let (last, payloads, verdict) := (s.buffer.feed chunk).drain
  { buffer := last, payloads := s.payloads ++ payloads, verdict }

/-- Feeds all chunks to an empty buffer and takes the frames out after each one. -/
def drainEach (limit : Nat) (chunks : List Bytes) : Progress :=
  chunks.foldl Progress.chunk { buffer := empty limit, payloads := [], verdict := none }

/-- The bytes that came so far are split into what was taken out and what is
left. -/
structure Progress.After (s : Progress) (limit : Nat) (b : Bytes) : Prop where
  tidy : s.buffer.Tidy
  limit_eq : s.buffer.limit = limit
  splits : Splits b s.payloads s.buffer.unparsed
  verdict_eq : s.verdict = verdictOn limit s.buffer.unparsed

/-- Any bytes can be split. -/
theorem exists_splits (b : Bytes) : ∃ payloads rest, Splits b payloads rest :=
  ⟨_, _, ((empty 0).feed b).drain_splits.1⟩

namespace Progress.After

variable {s : Progress} {limit : Nat} {b : Bytes}

theorem chunk (h : s.After limit b) (chunk : Bytes) :
    (s.chunk chunk).After limit (b ++ chunk) := by
  have hfeed := h.tidy.feed chunk
  obtain ⟨hsplits, hlimit, hverdict⟩ := (s.buffer.feed chunk).drain_splits
  rw [h.tidy.unparsed_feed] at hsplits
  exact {
    tidy := hfeed.drain
    limit_eq := hlimit.trans h.limit_eq
    splits := h.splits.append hsplits
    verdict_eq := h.limit_eq ▸ hverdict }

theorem foldl (h : s.After limit b) (chunks : List Bytes) :
    (chunks.foldl Progress.chunk s).After limit (b ++ chunks.flatten) := by
  induction chunks generalizing s b with
  | nil => rwa [List.flatten_nil, List.append_nil]
  | cons chunk chunks ih =>
    rw [List.flatten_cons, ← List.append_assoc]
    exact ih (h.chunk chunk)

theorem verdict_eq_none_iff (h : s.After limit b) :
    s.verdict = none ↔ s.buffer.unparsed.length ≤ limit := by
  rw [h.verdict_eq, verdictOn_eq_none_iff]

/-- No draining fails while the frames that are under way are within the limit. -/
theorem verdict_eq_none {more rest : Bytes} {payloads : List Bytes} (h : s.After limit b)
    (hall : Splits (b ++ more) payloads rest)
    (hpayloads : ∀ payload ∈ payloads, payload.length ≤ limit) (hrest : rest.length ≤ limit) :
    s.verdict = none := by
  obtain ⟨payloads', rest', hmore⟩ := exists_splits (s.buffer.unparsed ++ more)
  have hboth := h.splits.append hmore
  have hpayloads' : ∀ payload ∈ payloads', payload.length ≤ limit := fun payload hmem =>
    hpayloads payload (hall.unique hboth ▸ List.mem_append_right _ hmem)
  have hrest' : rest'.length ≤ limit := by
    rw [hboth.rest_eq, ← hall.rest_eq]
    exact hrest
  exact h.verdict_eq_none_iff.mpr
    (hmore.length_beginning h.splits.unfinished hpayloads' hrest')

end Progress.After

theorem drainEach_after (limit : Nat) (chunks : List Bytes) :
    (drainEach limit chunks).After limit chunks.flatten := by
  have hstart : Progress.After ⟨empty limit, [], none⟩ limit [] :=
    ⟨tidy_empty limit, rfl, .of_notMem List.not_mem_nil, rfl⟩
  exact hstart.foldl chunks

/-- The frames that a consumer gets, and the verdict at the end, depend on the
bytes only and not on the chunks in which they came.  The frames are those that
end among the bytes, and the verdict is about what is behind them.  If none of
the frames and not the rest either is beyond the limit, then no draining on the
way fails, so it makes no difference whether the consumer would give up. -/
theorem same_frames_however_cut (limit : Nat) {chunks chunks' : List Bytes}
    (h : chunks.flatten = chunks'.flatten) :
    (drainEach limit chunks).payloads = (drainEach limit chunks').payloads ∧
      (drainEach limit chunks).verdict = (drainEach limit chunks').verdict ∧
      (∃ rest, Splits chunks.flatten (drainEach limit chunks).payloads rest ∧
        (drainEach limit chunks).verdict = verdictOn limit rest) ∧
      ((∀ payload ∈ (drainEach limit chunks).payloads, payload.length ≤ limit) →
        (drainEach limit chunks).verdict = none →
          ∀ n, (drainEach limit (chunks.take n)).verdict = none) := by
  have hafter := drainEach_after limit chunks
  have hafter' := drainEach_after limit chunks'
  rw [← h] at hafter'
  have hrest := hafter.splits.rest_eq.trans hafter'.splits.rest_eq.symm
  refine ⟨hafter.splits.unique hafter'.splits, ?_, ⟨_, hafter.splits, hafter.verdict_eq⟩, ?_⟩
  · rw [hafter.verdict_eq, hafter'.verdict_eq, hrest]
  · intro hpayloads hverdict n
    have hall := hafter.splits
    rw [← List.take_append_drop n chunks, List.flatten_append, List.take_append_drop] at hall
    exact (drainEach_after limit (chunks.take n)).verdict_eq_none hall hpayloads
      (hafter.verdict_eq_none_iff.mp hverdict)

/-- A payload of six bytes and the beginning of another one.  With a limit of four
the first chunk is refused where the end of the payload has not come yet; all the
same the payload is handed out in the end. -/
theorem same_frames_however_cut_long :
    let payload : Bytes := [64, 97, 98, 99, 100, 101]
    let chunks := [payload, [0, 64], [98]]
    let chunks' := [payload ++ [0, 64, 98]]
    chunks.flatten = chunks'.flatten ∧
      (drainEach 4 (chunks.take 1)).verdict = some (.protocol .frameTooLong) ∧
      (drainEach 4 chunks).payloads = [payload] ∧
      (drainEach 4 chunks).payloads = (drainEach 4 chunks').payloads ∧
      (drainEach 4 chunks).verdict = (drainEach 4 chunks').verdict := by
  intro payload chunks chunks'
  have hflatten : chunks.flatten = chunks'.flatten := by decide
  have hsplits : Splits chunks.flatten [payload] [64, 98] := ⟨by decide, by decide, by decide⟩
  obtain ⟨hpayloads, hverdict, ⟨rest, hrest, -⟩, -⟩ := same_frames_however_cut 4 hflatten
  refine ⟨hflatten, ?_, hrest.unique hsplits, hpayloads, hverdict⟩
  obtain ⟨-, -, ⟨rest, hfirst, hrefused⟩, -⟩ :=
    same_frames_however_cut 4 (rfl : (chunks.take 1).flatten = (chunks.take 1).flatten)
  have hlong : rest = payload := hfirst.rest_eq.trans (residue_of_notMem (by decide))
  rw [hrefused, hlong]
  decide

end FrameBuffer

end Supervisor.Wire
