import Supervisor.Proofs.Bus.Beside
import Supervisor.Worker.Loop

/-!
# A worker whose service is noted

`Service.noted` is a service that writes its callbacks down beside the world,
in a log that nobody reads.  A worker with this service does what it does with
the service itself: each of its functions leaves the log alone, or adds to it
the callback that it makes, and yields the same (`run_noted`).
-/

namespace Supervisor.Worker

variable {σ τ : Type}

/-! ## Callbacks -/

/-- A callback of a service. -/
inductive Call where
  | start
  | message (e : Envelope)
  | step (outcome : Except Error Step)
  | stop

namespace Call

/-- The callback is part of the work: a step, or a message other than the
command to stop. -/
def Works : Call → Prop
  | .step _ => True
  | .message e => e.message ≠ .command .stop
  | .start | .stop => False

/-- The callback completes a task. -/
def finishes : Call → Bool
  | .step (.ok .finished) => true
  | _ => false

end Call

/-- A service that writes its callbacks down. -/
def Service.noted (service : Service σ) : Service (List Call × σ) where
  start c x :=
    ((service.start c x.2).1, (service.start c x.2).2.1, x.1 ++ [.start], (service.start c x.2).2.2)
  step c x :=
    ((service.step c x.2).1, (service.step c x.2).2.1, x.1 ++ [.step (service.step c x.2).1],
      (service.step c x.2).2.2)
  onMessage e c x :=
    ((service.onMessage e c x.2).1, (service.onMessage e c x.2).2.1, x.1 ++ [.message e],
      (service.onMessage e c x.2).2.2)
  stop c x := ((service.stop c x.2).1, x.1 ++ [.stop], (service.stop c x.2).2)

/-- The same surroundings beside other state. -/
def Station.beside (w : Station σ) : Station (τ × σ) where
  host := w.host.onSecond
  asked x := w.asked x.2
  process := w.process
  thread := w.thread

/-! ## The log changes nothing -/

theorem Context.send_beside (c : Context) (w : Station σ) (audience : Audience)
    (number : UInt64) (message : Message) (t : τ) (s : σ) :
    c.send w.beside audience number message (t, s) =
      ((c.send w audience number message s).1, (c.send w audience number message s).2.1, t,
        (c.send w audience number message s).2.2) := by
  unfold send Station.beside
  rw [Bus.Client.send_onSecond]

theorem Context.report_beside (c : Context) (w : Station σ) (t : τ) (s : σ) :
    c.report w.beside (t, s) =
      ((c.report w s).1, (c.report w s).2.1, t, (c.report w s).2.2) := by
  have husage : (w.beside (τ := τ)).host.usage (t, s) = w.host.usage s := rfl
  unfold report
  rw [husage]
  rcases w.host.usage s with ⟨userTime, systemTime⟩
  exact send_beside _ w _ _ _ t s

theorem Context.transition_beside (c : Context) (w : Station σ) (next : Status) (t : τ) (s : σ) :
    c.transition w.beside next (t, s) =
      ((c.transition w next s).1, (c.transition w next s).2.1, t,
        (c.transition w next s).2.2) := by
  have hpresent : (w.beside (τ := τ)).host.present (t, s) = w.host.present s := rfl
  unfold transition
  rw [hpresent]
  split
  · rfl
  · split
    · rfl
    · exact report_beside _ w t s

theorem settle_beside (w : Station σ) (maxTasks : UInt64) (step : Step) (c : Context) (t : τ)
    (s : σ) :
    settle w.beside maxTasks step c (t, s) =
      ((settle w maxTasks step c s).1, (settle w maxTasks step c s).2.1, t,
        (settle w maxTasks step c s).2.2) := by
  cases step with
  | idle =>
    unfold settle
    dsimp only
    rw [Context.transition_beside]
    rcases c.transition w .waiting s with ⟨_ | _, c', s'⟩ <;> rfl
  | busy =>
    unfold settle
    dsimp only
    rw [Context.transition_beside]
    rcases c.transition w .running s with ⟨_ | _, c', s'⟩ <;> rfl
  | finished =>
    have hpresent : (w.beside (τ := τ)).host.present (t, s) = w.host.present s := rfl
    unfold settle
    dsimp only
    rw [hpresent, Context.report_beside]
    rcases Context.report _ w s with ⟨_ | _, c', s'⟩
    · rfl
    · dsimp only
      split <;> rfl

/-- A result without the log. -/
def bare {α : Type} (r : α × Context × List Call × σ) : α × Context × σ :=
  (r.1, r.2.1, r.2.2.2)

section Noted

variable (w : Station σ) (service : Service σ)

theorem dispatch_noted (e : Envelope) (c : Context) (x : List Call × σ) :
    bare (dispatch service.noted e c x) = dispatch service e c x.2 := by
  unfold dispatch
  split <;> rfl

theorem advance_noted (maxTasks : UInt64) (c : Context) (x : List Call × σ) :
    bare (advance w.beside service.noted maxTasks c x) = advance w service maxTasks c x.2 := by
  unfold advance
  rw [show c.isTerminating w.beside x = c.isTerminating w x.2 from rfl]
  split
  · rfl
  · simp only [Service.noted]
    rcases service.step c x.2 with ⟨e | step, c', s'⟩
    · rfl
    · dsimp only
      rw [settle_beside]
      rfl

theorem turn_noted (settings : Settings) (busy : Bool) (c : Context) (x : List Call × σ) :
    bare (turn w.beside service.noted settings busy c x) = turn w service settings busy c x.2 := by
  unfold turn
  rw [show c.isTerminating w.beside x = c.isTerminating w x.2 from rfl]
  split
  · rfl
  · rw [show w.beside.host = w.host.onSecond from rfl, Bus.Client.receive_onSecond]
    rcases c.link.receive w.host (if busy then .zero else settings.tick) x.2
      with ⟨e | (_ | e), link, s⟩
    · cases e <;> rfl
    · exact advance_noted w service settings.maxTasks _ (x.1, s)
    · dsimp only
      rw [← dispatch_noted service e _ (x.1, s)]
      rcases dispatch service.noted e { c with link } (x.1, s) with ⟨_ | _, c', y⟩
      · rfl
      · exact advance_noted w service settings.maxTasks c' y

theorem turns_noted (settings : Settings) (n : Nat) (busy : Bool) (c : Context)
    (x : List Call × σ) :
    bare (turns w.beside service.noted settings n busy c x) =
      turns w service settings n busy c x.2 := by
  induction n generalizing busy c x with
  | zero => rfl
  | succ n ih =>
    unfold turns
    rw [← turn_noted]
    rcases turn w.beside service.noted settings busy c x with ⟨_ | _, c', y⟩
    · exact ih _ c' y
    · rfl

theorem serve_noted (settings : Settings) (n : Nat) (c : Context) (x : List Call × σ) :
    bare (serve w.beside service.noted settings n c x) = serve w service settings n c x.2 := by
  unfold serve
  simp only [Service.noted]
  rcases service.start c x.2 with ⟨_ | _, c', s'⟩
  · rfl
  · dsimp only
    rw [Context.transition_beside]
    rcases c'.transition w .waiting s' with ⟨_ | _, c'', s''⟩
    · rfl
    · exact turns_noted w service settings n false c'' _

theorem leave_noted (c : Context) (x : List Call × σ) :
    leave w.beside service.noted c x =
      ((leave w service c x.2).1, x.1 ++ [.stop], (leave w service c x.2).2) := by
  unfold leave
  rw [Context.transition_beside]
  rcases c.transition w .exiting x.2 with ⟨_ | _, c', s'⟩
  · rfl
  · dsimp only
    rw [show w.beside.host = w.host.onSecond from rfl, Bus.Client.flushBlocking_onSecond]
    rfl

/-- Writing the callbacks down changes nothing else. -/
theorem run_noted (settings : Settings) (n : Nat) (c : Context) (x : List Call × σ) :
    bare (run w.beside service.noted settings n c x) = run w service settings n c x.2 := by
  unfold run
  rw [← serve_noted]
  rcases serve w.beside service.noted settings n c x with ⟨_ | result, c', y⟩
  · rfl
  · dsimp only
    rw [leave_noted]
    rfl

end Noted

end Supervisor.Worker
