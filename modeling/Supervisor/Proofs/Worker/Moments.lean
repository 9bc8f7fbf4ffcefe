import Mathlib.Logic.Function.Iterate
import Supervisor.Worker.Loop

/-!
# The moments of a worker

A run of a worker is a sequence of moments.  `next` goes from each to the one
that follows, and between two of them the worker takes a look at whether it is
to leave, calls its service once, or both.  `run_reaches` says that a run goes
through these moments, so whatever is kept from one moment to the next holds
all along a run.
-/

namespace Supervisor.Worker

variable {σ : Type}

/-- Where a worker is in its run. -/
inductive Stage where
  | starting
  /-- Before a turn; `busy` if a task is in progress. -/
  | between (busy : Bool)
  /-- An envelope was received. -/
  | holding (e : Envelope)
  /-- The envelope of the turn, if there was one, is dealt with. -/
  | poised
  | leaving (result : Except Error Unit)
  | gone (result : Except Error Unit)

namespace Stage

/-- The stage in which serving ends with a result, or goes on. -/
def EndsServing (stage : Stage) : Option (Except Error Unit) → Prop
  | some result => stage = .leaving result
  | none => ∃ busy, stage = .between busy

/-- The stage in which a run ends with a result, or goes on. -/
def EndsRun (stage : Stage) : Option (Except Error Int32) → Prop
  | some result => ∃ served : Except Error Unit,
    result = served.map (fun () => 0) ∧ stage = .gone served
  | none => ∃ busy, stage = .between busy

end Stage

/-- A worker at a stage of its run. -/
structure Moment (σ : Type) where
  stage : Stage
  context : Context
  world : σ

namespace Moment

/-- The end of a turn. -/
def ofTurn : Turn × Context × σ → Moment σ
  | (.over result, c, s) => ⟨.leaving result, c, s⟩
  | (.again busy, c, s) => ⟨.between busy, c, s⟩

end Moment

section

variable (w : Station σ) (service : Service σ) (settings : Settings)

/-- The moment that follows. -/
def next (m : Moment σ) : Moment σ :=
  match m.stage with
  | .starting =>
    match service.start m.context m.world with
    | (.error e, c, s) => ⟨.leaving (.error e), c, s⟩
    | (.ok (), c, s) =>
      match c.transition w .waiting s with
      | (.error e, c, s) => ⟨.leaving (.error e), c, s⟩
      | (.ok (), c, s) => ⟨.between false, c, s⟩
  | .between busy =>
    if m.context.isTerminating w m.world then ⟨.leaving (.ok ()), m.context, m.world⟩
    else
      let (received, link, s) :=
        m.context.link.receive w.host (if busy then .zero else settings.tick) m.world
      let c := { m.context with link }
      match received with
      | .error .channelClosed => ⟨.leaving (.ok ()), c, s⟩
      | .error e => ⟨.leaving (.error e), c, s⟩
      | .ok none => ⟨.poised, c, s⟩
      | .ok (some e) => ⟨.holding e, c, s⟩
  | .holding e =>
    match dispatch service e m.context m.world with
    | (.error e, c, s) => ⟨.leaving (.error e), c, s⟩
    | (.ok (), c, s) => ⟨.poised, c, s⟩
  | .poised => .ofTurn (advance w service settings.maxTasks m.context m.world)
  | .leaving result =>
    let (c, s) := leave w service m.context m.world
    ⟨.gone result, c, s⟩
  | .gone _ => m

/-- One moment comes some time after the other, or is the same. -/
def Reaches (m m' : Moment σ) : Prop :=
  ∃ k, (next w service settings)^[k] m = m'

variable {w service settings}

theorem Reaches.refl (m : Moment σ) : Reaches w service settings m m :=
  ⟨0, rfl⟩

theorem Reaches.trans {m m' m'' : Moment σ} (h : Reaches w service settings m m')
    (h' : Reaches w service settings m' m'') : Reaches w service settings m m'' := by
  obtain ⟨k, rfl⟩ := h
  obtain ⟨k', rfl⟩ := h'
  exact ⟨k' + k, Function.iterate_add_apply _ _ _ _⟩

/-- What is reached from the next moment is reached. -/
theorem Reaches.of_next {m m' : Moment σ}
    (h : Reaches w service settings (next w service settings m) m') :
    Reaches w service settings m m' := by
  obtain ⟨k, rfl⟩ := h
  exact ⟨k + 1, Function.iterate_succ_apply _ _ _⟩

variable (w service settings)

/-- A turn goes through moments. -/
theorem turn_reaches (busy : Bool) (c : Context) (s : σ) :
    Reaches w service settings ⟨.between busy, c, s⟩
      (.ofTurn (turn w service settings busy c s)) := by
  apply Reaches.of_next
  unfold turn
  simp only [next]
  split
  · exact .refl _
  · rcases c.link.receive w.host (if busy then .zero else settings.tick) s
      with ⟨e | (_ | e), link, s'⟩
    · cases e <;> exact .refl _
    · exact .of_next (.refl _)
    · apply Reaches.of_next
      dsimp only [next]
      rcases dispatch service e { c with link } s' with ⟨_ | _, c', s''⟩
      · exact .refl _
      · exact .of_next (.refl _)

/-- So do turns, one after the other. -/
theorem turns_reaches (n : Nat) (busy : Bool) (c : Context) (s : σ) :
    let out := turns w service settings n busy c s
    ∃ stage, stage.EndsServing out.1 ∧
      Reaches w service settings ⟨.between busy, c, s⟩ ⟨stage, out.2.1, out.2.2⟩ := by
  induction n generalizing busy c s with
  | zero => exact ⟨.between busy, ⟨busy, rfl⟩, .refl _⟩
  | succ n ih =>
    have hturn := turn_reaches w service settings busy c s
    unfold turns
    generalize turn w service settings busy c s = out at hturn ⊢
    obtain ⟨busy' | result, c', s'⟩ := out
    · obtain ⟨stage, hstage, hlast⟩ := ih busy' c' s'
      exact ⟨stage, hstage, hturn.trans hlast⟩
    · exact ⟨.leaving result, rfl, hturn⟩

theorem serve_reaches (n : Nat) (c : Context) (s : σ) :
    let out := serve w service settings n c s
    ∃ stage, stage.EndsServing out.1 ∧
      Reaches w service settings ⟨.starting, c, s⟩ ⟨stage, out.2.1, out.2.2⟩ := by
  have hnext : ∀ {m' : Moment σ},
      Reaches w service settings (next w service settings ⟨.starting, c, s⟩) m' →
        Reaches w service settings ⟨.starting, c, s⟩ m' := Reaches.of_next
  unfold serve
  simp only [next] at hnext
  generalize service.start c s = started at hnext ⊢
  obtain ⟨e | _, c', s'⟩ := started
  · exact ⟨.leaving (.error e), rfl, hnext (.refl _)⟩
  · dsimp only at hnext ⊢
    generalize c'.transition w .waiting s' = moved at hnext ⊢
    obtain ⟨e | _, c'', s''⟩ := moved
    · exact ⟨.leaving (.error e), rfl, hnext (.refl _)⟩
    · obtain ⟨stage, hstage, hlast⟩ := turns_reaches w service settings n false c'' s''
      exact ⟨stage, hstage, hnext hlast⟩

/-- A run goes from the start to where the worker is gone, or to where it would
take another turn. -/
theorem run_reaches (n : Nat) (c : Context) (s : σ) :
    let out := run w service settings n c s
    ∃ stage, stage.EndsRun out.1 ∧
      Reaches w service settings ⟨.starting, c, s⟩ ⟨stage, out.2.1, out.2.2⟩ := by
  obtain ⟨stage, hstage, hserved⟩ := serve_reaches w service settings n c s
  unfold run
  generalize serve w service settings n c s = out at hstage hserved ⊢
  obtain ⟨_ | served, c', s'⟩ := out
  · exact ⟨stage, hstage, hserved⟩
  · obtain rfl : stage = .leaving served := hstage
    exact ⟨.gone served, ⟨served, rfl, rfl⟩, hserved.trans (.of_next (.refl _))⟩

end

end Supervisor.Worker
