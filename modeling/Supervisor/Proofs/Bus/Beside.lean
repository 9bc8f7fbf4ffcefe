import Supervisor.Bus.Client

/-!
# A client beside other state

`Host.onSecond` puts a state beside that of a host, for whoever wants to keep
something there.  The calls of a client go through to the host and leave what
is beside it alone.
-/

namespace Supervisor

open Poll (Host)

variable {σ τ : Type}

namespace Poll.Stream

open Wire (Bytes)

theorem write_onSecond (st : Stream) (b : Bytes) (host : Host σ) (t : τ) (s : σ) :
    st.write b host.onSecond (t, s) = ((st.write b host s).1, t, (st.write b host s).2) := by
  unfold write
  split
  · rfl
  · split <;> rfl

theorem read_onSecond (st : Stream) (host : Host σ) (t : τ) (s : σ) :
    st.read host.onSecond (t, s) = ((st.read host s).1, t, (st.read host s).2) := by
  unfold read
  split <;> rfl

end Poll.Stream

namespace Bus.Client

theorem flush_onSecond (host : Host σ) (c : Client) (t : τ) (s : σ) :
    flush host.onSecond c (t, s) =
      ((flush host c s).1, (flush host c s).2.1, t, (flush host c s).2.2) := by
  unfold flush
  rw [Poll.Stream.write_onSecond]
  rcases c.handle.write c.outbound host s with ⟨flushed, s'⟩
  dsimp only
  split
  · rfl
  · split <;> rfl

theorem send_onSecond (host : Host σ) (c : Client) (audience : Audience) (number : UInt64)
    (message : Message) (t : τ) (s : σ) :
    send host.onSecond c audience number message (t, s) =
      ((send host c audience number message s).1, (send host c audience number message s).2.1, t,
        (send host c audience number message s).2.2) := by
  unfold send
  dsimp only
  split
  · rfl
  · split
    · rfl
    · exact flush_onSecond host _ t s

theorem wait_onSecond (host : Host σ) (c : Client) (timeout : Duration) (t : τ) (s : σ) :
    c.wait host.onSecond timeout (t, s) =
      ((c.wait host timeout s).1, t, (c.wait host timeout s).2) :=
  rfl

theorem flushUntil_onSecond (host : Host σ) (timeout deadline : Duration) (rounds : Nat)
    (c : Client) (t : τ) (s : σ) :
    flushUntil host.onSecond timeout deadline rounds c (t, s) =
      ((flushUntil host timeout deadline rounds c s).1,
        (flushUntil host timeout deadline rounds c s).2.1, t,
        (flushUntil host timeout deadline rounds c s).2.2) := by
  induction rounds generalizing c s with
  | zero => rfl
  | succ rounds ih =>
    have hclock : host.onSecond.clock (t, s) = host.clock s := rfl
    unfold flushUntil
    rw [hclock]
    dsimp only
    rw [wait_onSecond]
    split
    · rfl
    · split
      · rfl
      · rcases c.wait host (deadline - host.clock s) s with ⟨polled, s'⟩
        cases polled with
        | failed => rfl
        | reported | interrupted =>
          dsimp only
          rw [flush_onSecond]
          rcases flush host c s' with ⟨_ | _, c', s''⟩
          · rfl
          · exact ih c' s''

theorem flushBlocking_onSecond (host : Host σ) (c : Client) (timeout : Duration) (t : τ) (s : σ) :
    flushBlocking host.onSecond c timeout (t, s) =
      ((flushBlocking host c timeout s).1, (flushBlocking host c timeout s).2.1, t,
        (flushBlocking host c timeout s).2.2) := by
  unfold flushBlocking
  rw [flush_onSecond]
  rcases flush host c s with ⟨_ | _, c', s'⟩
  · rfl
  · exact flushUntil_onSecond host _ _ _ c' t s'

theorem fill_onSecond (host : Host σ) (c : Client) (t : τ) (s : σ) :
    fill host.onSecond c (t, s) = ((fill host c s).1, t, (fill host c s).2) := by
  unfold fill
  rw [Poll.Stream.read_onSecond]
  rcases c.handle.read host s with ⟨events, s'⟩
  dsimp only
  split <;> rfl

theorem attend_onSecond (host : Host σ) (c : Client) (r : Poll.Readiness) (t : τ) (s : σ) :
    attend host.onSecond c r (t, s) =
      ((attend host c r s).1, (attend host c r s).2.1, t, (attend host c r s).2.2) := by
  unfold attend
  have hflush : (if r.writable then flush host.onSecond c (t, s) else (.ok (), c, t, s)) =
      let flushed := if r.writable then flush host c s else (.ok (), c, s)
      (flushed.1, flushed.2.1, t, flushed.2.2) := by
    split
    · exact flush_onSecond host c t s
    · rfl
  rw [hflush]
  rcases (if r.writable then flush host c s else (.ok (), c, s)) with ⟨_ | _, c', s'⟩
  · rfl
  · dsimp only
    split
    · rw [fill_onSecond]
    · rfl

theorem receive_onSecond (host : Host σ) (c : Client) (timeout : Duration) (t : τ) (s : σ) :
    receive host.onSecond c timeout (t, s) =
      ((receive host c timeout s).1, (receive host c timeout s).2.1, t,
        (receive host c timeout s).2.2) := by
  unfold receive
  split
  · rfl
  · split
    · rename_i c' _
      rw [wait_onSecond]
      rcases c'.wait host timeout s with ⟨polled, s'⟩
      cases polled with
      | reported report =>
        dsimp only
        rw [attend_onSecond]
        rcases c'.attend host (report c'.stream) s' with ⟨_ | _, c'', s''⟩ <;> rfl
      | interrupted | failed => rfl
    · rfl

end Bus.Client

end Supervisor
