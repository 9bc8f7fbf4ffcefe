import Supervisor.Proofs.PidLock.Ownership
import Supervisor.Proofs.Pool.Collection
import Supervisor.Proofs.Scheduler.Turns

/-!
# Calls on a scheduler

A scheduler is started, turned, sent messages and stopped, in any order and
with any outcome, and the world may change in between.

* `Call`, `Reachable` and `Onward` are such runs: from the creation of the
  scheduler, and from any state up to the next stop.
* `start_cases` and `stop_of_open` open the two calls that take and give up
  things.  `lockPid_cases` does so for the pid lock.
* `Frame` is what all the other work leaves alone: the lock, whether the bus
  is open, a pool that is empty while the bus is closed, and whatever is true
  of the world and spared by host, backend and discipline (`Spares`).
-/

namespace Supervisor.Scheduler

open Bus (Routing Peer)
open Lifecycle (Event)
open Poll (Selector Reactor)

variable {σ : Type} {p : Premises σ} {K : σ → Prop}

/-! ## What is left alone -/

/-- What is true of the world stays true, whatever the host, the backend and
the discipline do. -/
structure Premises.Spares (p : Premises σ) (K : σ → Prop) : Prop where
  call : ∀ {s s'}, p.host.Call s s' → K s → K s'
  sleep : ∀ d {s}, K s → K (p.host.sleep d s)
  bind : ∀ address shared {s}, K s → K (p.host.bind address shared s).2
  raise : ∀ e {s}, K s → K (p.bus.raise e s).2
  decide : ∀ c now {s}, K s → K (p.discipline c now s).2

theorem Premises.spares_true (p : Premises σ) : p.Spares fun _ => True := by
  constructor <;> intros <;> trivial

theorem Premises.Spares.startWorker (hK : p.Spares K) (settings : Worker.Settings) {s : σ}
    (hs : K s) : K (p.bus.startWorker settings s).2 := by
  have hcreate := hK.raise (.workerCreate settings) hs
  unfold Lifecycle.Bus.startWorker
  generalize p.bus.raise (.workerCreate settings) s = raised at hcreate ⊢
  obtain ⟨outcome, s'⟩ := raised
  cases outcome with
  | error e => exact hcreate
  | ok emitted =>
    dsimp only
    split
    · exact hcreate
    · exact hK.raise _ hcreate

namespace Core

/-- What work on the pool leaves alone. -/
structure Frame (K : σ → Prop) (x y : Core × σ) : Prop where
  lock : y.1.lock = x.1.lock
  bus : y.1.ipc.isSome = x.1.ipc.isSome
  empty : x.1.ipc = none → x.1.workers.size = 0 → y.1.workers.size = 0
  world : K x.2 → K y.2

namespace Frame

variable {x y z : Core × σ}

theorem refl (K : σ → Prop) (x : Core × σ) : Frame K x x :=
  ⟨rfl, rfl, fun _ h => h, id⟩

theorem closed (h : Frame K x y) (hx : x.1.ipc = none) : y.1.ipc = none := by
  have hbus := h.bus
  rw [hx] at hbus
  exact Option.not_isSome_iff_eq_none.mp (by simp [hbus])

theorem opened (h : Frame K x y) (hx : x.1.ipc ≠ none) : y.1.ipc ≠ none := by
  have hbus := h.bus
  rw [Option.isSome_iff_ne_none.mpr hx] at hbus
  exact Option.isSome_iff_ne_none.mp hbus

theorem trans (h : Frame K x y) (h' : Frame K y z) : Frame K x z where
  lock := h'.lock.trans h.lock
  bus := h'.bus.trans h.bus
  empty hclosed hempty := h'.empty (h.closed hclosed) (h.empty hclosed hempty)
  world := h'.world ∘ h.world

end Frame

/-! ## Workers -/

theorem frame_note (K : σ → Prop) (c : Core) (e : Event) (s : σ) :
    Frame K (c, s) (c.note e, s) := by
  cases e with
  | workerTerminated uid code =>
    refine ⟨rfl, rfl, fun _ hempty => ?_, id⟩
    exact Nat.le_zero.mp (hempty ▸ Table.size_erase_le c.workers.workers uid)
  | _ => exact ⟨rfl, rfl, fun _ h => h, id⟩

theorem frame_noteAll (K : σ → Prop) (events : List Event) (c : Core) (s : σ) :
    Frame K (c, s) (c.noteAll events, s) := by
  induction events generalizing c with
  | nil => exact .refl K _
  | cons e events ih => exact (frame_note K c e s).trans (ih (c.note e))

theorem frame_raise (hK : p.Spares K) (c : Core) (e : Event) (s : σ) :
    Frame K (c, s) (c.raise p e s).2 := by
  have hworld := hK.raise e (s := s)
  unfold raise
  generalize p.bus.raise e s = raised at hworld ⊢
  obtain ⟨outcome, s'⟩ := raised
  have hmoved : Frame K (c, s) (c, s') := ⟨rfl, rfl, fun _ h => h, hworld⟩
  cases outcome with
  | error e => exact hmoved
  | ok events => exact hmoved.trans (frame_noteAll K events c s')

theorem frame_stopWorker (hK : p.Spares K) (uid : WorkerId) (hard : Bool) (c : Core) (s : σ) :
    Frame K (c, s) (c.stopWorker p uid hard s) := by
  let marked : Core := { c with workers := c.workers.markTerminated uid (p.host.present s) }
  have hmarked : Frame K (c, s) (marked, s) := by
    refine ⟨rfl, rfl, fun _ hempty => ?_, id⟩
    exact (Pool.Collection.size_markTerminated _ _ _).trans hempty
  rw [stopWorker_eq]
  exact hmarked.trans (frame_raise hK marked _ s)

theorem frame_stopWorkers (hK : p.Spares K) (hard : Bool) (uids : List WorkerId) (c : Core)
    (s : σ) : Frame K (c, s) (stopWorkers p hard uids c s) := by
  induction uids generalizing c s with
  | nil => exact .refl K _
  | cons uid uids ih => exact (frame_stopWorker hK uid hard c s).trans (ih _ _)

theorem frame_createWorker (hK : p.Spares K) (c : Core) (s : σ) :
    Frame K (c, s) (c.createWorker p s) := by
  unfold createWorker
  split
  · exact .refl K _
  · rename_i routing id hbus
    have hworld := hK.startWorker (settings p.config routing) (s := s)
    generalize p.bus.startWorker (settings p.config routing) s = started at hworld ⊢
    obtain ⟨outcome, s'⟩ := started
    -- The bus is open, so nothing is said of the size of the pool.
    have hopen {c' : Core} {P : Prop} (hc' : c'.ipc = c.ipc) (h : c'.ipc = none) : P := by
      rw [hc', hbus] at h
      cases h
    have hmoved : Frame K (c, s) (c, s') := ⟨rfl, rfl, hopen rfl, hworld⟩
    cases outcome with
    | none => exact hmoved
    | some uid =>
      dsimp only
      split
      · exact ⟨rfl, rfl, hopen rfl, hworld⟩
      · exact hmoved.trans (frame_stopWorker hK uid true c s')

theorem frame_createWorkers (hK : p.Spares K) (n : Nat) (c : Core) (s : σ) :
    Frame K (c, s) (createWorkers p n c s) := by
  induction n generalizing c s with
  | zero => exact .refl K _
  | succ n ih => exact (frame_createWorker hK c s).trans (ih _ _)

theorem frame_balance (hK : p.Spares K) (c : Core) (s : σ) :
    Frame K (c, s) (c.balance p s) := by
  have hworld := hK.decide c.workers (p.host.present s) (s := s)
  unfold balance
  generalize p.discipline c.workers (p.host.present s) s = decided at hworld ⊢
  obtain ⟨d, s'⟩ := decided
  have hdecided : Frame K (c, s) (c, s') := ⟨rfl, rfl, fun _ h => h, hworld⟩
  have hcreated := hdecided.trans (frame_createWorkers hK d.create c s')
  exact hcreated.trans (frame_stopWorkers hK false d.terminate _ _)

theorem Change.frame {x y : Core × σ} (h : Change p x y) (hK : p.Spares K) : Frame K x y := by
  cases h with
  | called hcall => exact ⟨rfl, rfl, fun _ h => h, hK.call hcall⟩
  | slept c d s => exact ⟨rfl, rfl, fun _ h => h, hK.sleep d⟩
  | routed routing' s hbus => exact ⟨rfl, by simp [hbus], fun _ h => h, id⟩
  | received | asked => exact ⟨rfl, rfl, fun _ h => h, id⟩
  | reported s hupdate =>
    exact ⟨rfl, rfl, fun _ hempty => (Pool.Collection.size_update hupdate).trans hempty, id⟩
  | told c s _ => exact frame_raise hK c _ s
  | balanced s _ => exact frame_balance hK _ s

theorem Changes.frame {x y : Core × σ} (h : Changes p x y) (hK : p.Spares K) : Frame K x y := by
  induction h with
  | refl => exact .refl K _
  | tail _ hchange ih => exact ih.trans (hchange.frame hK)

/-! ## Shutting down -/

/-- `endWorkers` with a number of rounds for its pauses. -/
def endWithin (p : Premises σ) (rounds : Nat) (c : Core) (s : σ) : Core × σ :=
  let (c, s) := c.stopWorkers p true c.workers.uids s
  let (c, s) := awaitEnds p (p.host.clock s + p.config.shutdownTimeout) rounds c s
  ({ c with workers := c.workers.clear }, s)

/-- The number of rounds is a quotient that must not be computed, so nothing
below unfolds `endWorkers` itself. -/
theorem endWorkers_eq (c : Core) (s : σ) :
    endWorkers p c s =
      c.endWithin p (p.config.shutdownTimeout.nanos / shutdownPause.nanos + 1) s :=
  rfl

theorem frame_endWithin (hK : p.Spares K) (rounds : Nat) (c : Core) (s : σ) :
    Frame K (c, s) (c.endWithin p rounds s) := by
  have hstopped := frame_stopWorkers hK true c.workers.uids c s
  unfold endWithin
  generalize stopWorkers p true c.workers.uids c s = stopped at hstopped ⊢
  obtain ⟨c', s'⟩ := stopped
  have hawaited := hstopped.trans
    ((changes_awaitEnds (p.host.clock s' + p.config.shutdownTimeout) rounds c' s').frame hK)
  dsimp only
  generalize awaitEnds p _ rounds c' s' = awaited at hawaited ⊢
  obtain ⟨c'', s''⟩ := awaited
  exact ⟨hawaited.lock, hawaited.bus, fun _ _ => rfl, hawaited.world⟩

theorem size_endWithin (rounds : Nat) (c : Core) (s : σ) :
    (c.endWithin p rounds s).1.workers.size = 0 :=
  rfl

theorem frame_endWorkers (hK : p.Spares K) (c : Core) (s : σ) :
    Frame K (c, s) (endWorkers p c s) := by
  rw [endWorkers_eq]
  exact frame_endWithin hK _ c s

/-- After shutting down there are no workers, whether or not they have ended. -/
theorem size_endWorkers (c : Core) (s : σ) : (endWorkers p c s).1.workers.size = 0 := by
  rw [endWorkers_eq]
  exact size_endWithin _ c s

end Core

/-! ## Starting -/

/-- The scheduler with the pid lock. -/
def locked (c : Scheduler) : Scheduler :=
  { c with core := { c.core with lock := some ⟨false⟩ } }

/-- The scheduler gets the pid lock, or nothing changes. -/
theorem lockPid_cases (p : Premises σ) (c : Scheduler) (s : σ) :
    (∃ e, c.lockPid p s = (.error e, c, p.setLockFile (p.lockFile s) s)) ∨
      c.lockPid p s =
        (.ok (), c.locked, p.setLockFile (PidLock.renewed p.own c.core.lock) s) := by
  unfold lockPid
  rcases PidLock.renew_cases p.own (p.probe s) c.core.lock (p.lockFile s) with ⟨e, h⟩ | h
  · rw [h]
    exact Or.inl ⟨e, rfl⟩
  · rw [h]
    exact Or.inr rfl

/-- A scheduler that the file names gets the lock. -/
theorem lockPid_of_owner {c : Scheduler} {s : σ} (h : (p.lockFile s).owner? = some p.own) :
    c.lockPid p s =
      (.ok (), c.locked, p.setLockFile (PidLock.renewed p.own c.core.lock) s) := by
  rw [lockPid, PidLock.renew_of_owner h]
  rfl

/-- The bus can be opened or not, and the world only sees an attempt to
listen. -/
theorem openBus_cases (hK : ∀ address shared {s}, K s → K (p.host.bind address shared s).2)
    (c : Scheduler) (s : σ) :
    ∃ s', (K s → K s') ∧
      ((∃ e, c.openBus p s = (.error e, c, s')) ∨
        ∃ bus reactor,
          c.openBus p s = (.ok (), ⟨{ c.core with ipc := some bus }, reactor⟩, s')) := by
  have hbind := hK p.config.address false (s := s)
  unfold openBus Routing.bind
  generalize p.host.bind p.config.address false s = bound at hbind ⊢
  obtain ⟨outcome, s'⟩ := bound
  refine ⟨s', hbind, ?_⟩
  cases outcome with
  | error failure => exact Or.inl ⟨_, rfl⟩
  | ok opened =>
    dsimp only
    cases Selector.empty.register { id := opened.1, kind := .listener } .accepting
        (none : Option Peer) with
    | error e => exact Or.inl ⟨e, rfl⟩
    | ok selector => exact Or.inr ⟨_, _, rfl⟩

/-- A launch tells the backend of two events, one after the other, and creates
the first workers.  Whatever relates the states before and after each of these
relates those before and after the launch. -/
theorem related_launch {R : Core × σ → Core × σ → Prop}
    (htrans : ∀ {x y z}, R x y → R y z → R x z)
    (htell : ∀ (c : Core) (s : σ) {e : Event}, e = .kernelStart ∨ e = .schedulerStart →
      R (c, s) (c.raise p e s).2)
    (hcreate : ∀ c s, R (c, s) (Core.createWorkers p p.config.startWorkers c s))
    (c : Scheduler) (s : σ) : R (c.core, s) ((c.launch p s).2.1.core, (c.launch p s).2.2) := by
  have hkernel := htell c.core s (.inl rfl)
  unfold launch
  generalize c.core.raise p .kernelStart s = raised at hkernel ⊢
  obtain ⟨outcome, core, s'⟩ := raised
  cases outcome with
  | error e => exact hkernel
  | ok _ =>
    have hstart := htrans hkernel (htell core s' (.inr rfl))
    dsimp only
    generalize core.raise p .schedulerStart s' = raised at hstart ⊢
    obtain ⟨outcome, core', s''⟩ := raised
    cases outcome with
    | error e => exact hstart
    | ok _ => exact htrans hstart (hcreate core' s'')

theorem frame_launch (hK : p.Spares K) (c : Scheduler) (s : σ) :
    Core.Frame K (c.core, s) ((c.launch p s).2.1.core, (c.launch p s).2.2) := by
  apply related_launch Core.Frame.trans
  · intro c s e _
    exact Core.frame_raise hK c e s
  · exact Core.frame_createWorkers hK p.config.startWorkers

/-- With the bus open there is nothing to start. -/
theorem start_of_open {c : Scheduler} (h : c.core.ipc ≠ none) (s : σ) :
    c.start p s = (.ok (), c, s) := by
  rw [start, if_pos (Option.isSome_iff_ne_none.mpr h)]

/-- Whether a start takes the pid lock, and if so, whether it can open the
bus then. -/
def opening? (p : Premises σ) (c : Scheduler) (s : σ) : Option Bool :=
  if c.core.ipc.isSome then none
  else
    match c.lockPid p s with
    | (.error _, _, _) => none
    | (.ok (), c, s) => some (c.openBus p s).1.isOk

/-- All that a start can be. -/
inductive Start (p : Premises σ) (K : σ → Prop) (c : Scheduler) (s : σ) :
    Option Bool → Except Error Unit × Scheduler × σ → Prop where
  /-- The bus is open already. -/
  | serving : c.core.ipc ≠ none → Start p K c s none (.ok (), c, s)
  | refused {e : Error} : c.core.ipc = none →
      Start p K c s none (.error e, c, p.setLockFile (p.lockFile s) s)
  /-- The bus cannot be opened, and the pid lock is kept. -/
  | stranded {e : Error} {s' : σ} : c.core.ipc = none →
      Start p K c s (some false) (.error e, c.locked, s')
  | opened {out : Except Error Unit × Scheduler × σ} {bus : Routing × SelectorId} :
      c.core.ipc = none →
      Core.Frame K
        ({ c.locked.core with ipc := some bus },
          p.setLockFile (PidLock.renewed p.own c.core.lock) s) (out.2.1.core, out.2.2) →
      Start p K c s (some true) out

theorem start_cases (hK : p.Spares K) (c : Scheduler) (s : σ) :
    Start p K c s (c.opening? p s) (c.start p s) := by
  unfold opening? start
  cases hbus : c.core.ipc with
  | some bus => exact .serving (by simp [hbus])
  | none =>
    simp only [Option.isSome_none, Bool.false_eq_true, if_false]
    rcases lockPid_cases p c s with ⟨e, hlock⟩ | hlock
    · rw [hlock]
      exact .refused hbus
    · rw [hlock]
      obtain ⟨s', hworld, hopen⟩ := openBus_cases hK.bind c.locked
        (p.setLockFile (PidLock.renewed p.own c.core.lock) s)
      rcases hopen with ⟨e, hopen⟩ | ⟨bus, reactor, hopen⟩
      · simp only [hopen]
        exact .stranded hbus
      · simp only [hopen]
        let serving : Core := { c.locked.core with ipc := some bus }
        have hbound : Core.Frame K
            (serving, p.setLockFile (PidLock.renewed p.own c.core.lock) s) (serving, s') :=
          ⟨rfl, rfl, fun _ h => h, hworld⟩
        exact .opened hbus (hbound.trans (frame_launch hK ⟨serving, reactor⟩ s'))

/-! ## Stopping -/

/-- With the bus closed there is nothing to stop. -/
theorem stop_of_closed {c : Scheduler} (h : c.core.ipc = none) (s : σ) :
    c.stop p s = (.ok (), c, s) := by
  rw [stop, h]

theorem core_unlockPid (p : Premises σ) (c : Core) (s : σ) :
    (unlockPid p c s).2.1 = { c with lock := none } := by
  unfold unlockPid
  split
  · rename_i hlock
    rw [← hlock]
  · rfl

/-- Stopping gives up the workers and the bus, and then the pid lock. -/
theorem stop_of_open {c : Scheduler} (h : c.core.ipc ≠ none) (s : σ) :
    ∃ (core : Core) (reactor : Reactor Peer) (s' : σ), core.ipc = none ∧
      core.workers.size = 0 ∧ core.lock = c.core.lock ∧
      c.stop p s =
        ((unlockPid p core s').1, ⟨(unlockPid p core s').2.1, reactor⟩,
          (unlockPid p core s').2.2) := by
  obtain ⟨⟨routing, id⟩, hbus⟩ := Option.ne_none_iff_exists'.mp h
  let closing : Core := { c.core with ipc := none, terminating := true }
  have hended := Core.frame_endWorkers p.spares_true closing s
  have hempty := Core.size_endWorkers (p := p) closing s
  -- Nothing from here on may unfold `endWorkers`, not even to compare two terms.
  obtain ⟨endAll, hend⟩ : ∃ endAll, endAll = endWorkers p := ⟨_, rfl⟩
  rw [← hend] at hended hempty
  rw [stop, hbus, ← hend]
  dsimp only
  generalize endAll _ s = ended at hended hempty ⊢
  obtain ⟨core, s₁⟩ := ended
  exact ⟨core, _, _, hended.closed rfl, hempty, hended.lock, rfl⟩

/-- Stopping ends all workers, tells the backend, closes the bus and gives up
the pid lock.  Whatever relates the states before and after each of these
relates those before and after the stop. -/
theorem related_stop {R : Core × σ → Core × σ → Prop} {c : Scheduler} {s : σ}
    {routing : Routing} {id : SelectorId} (hopen : c.core.ipc = some (routing, id))
    (htrans : ∀ {x y z}, R x y → R y z → R x z)
    (hend : R (c.core, s) (endWorkers p { c.core with ipc := none, terminating := true } s))
    (htell : ∀ (core : Core) (s : σ), core.workers.size = 0 →
      R (core, s) (core, (p.bus.raise .schedulerStop s).2))
    (hclose : ∀ (core : Core) (r : Reactor Peer) (s : σ),
      R (core, s) (core, (closeBus p routing id r s).2))
    (hunlock : ∀ (core : Core) (s : σ),
      R (core, s) ((unlockPid p core s).2.1, (unlockPid p core s).2.2)) :
    R (c.core, s) ((c.stop p s).2.1.core, (c.stop p s).2.2) := by
  have hempty := Core.size_endWorkers (p := p) { c.core with ipc := none, terminating := true } s
  -- Nothing from here on may unfold `endWorkers`, not even to compare two terms.
  obtain ⟨endAll, hall⟩ : ∃ endAll, endAll = endWorkers p := ⟨_, rfl⟩
  rw [← hall] at hend hempty
  rw [stop, hopen, ← hall]
  dsimp only
  generalize endAll _ s = ended at hend hempty ⊢
  obtain ⟨core, s₁⟩ := ended
  have htold := htrans hend (htell core s₁ hempty)
  have hclosed := htrans htold (hclose core { c.reactor with terminating := true } _)
  exact htrans hclosed (hunlock core _)

/-- Whatever goes wrong in it, a stop leaves the bus closed. -/
theorem closed_of_stop (c : Scheduler) (s : σ) : (c.stop p s).2.1.core.ipc = none := by
  by_cases hclosed : c.core.ipc = none
  · rw [stop_of_closed hclosed]
    exact hclosed
  · obtain ⟨core, reactor, s', hbus, _, _, hstop⟩ := stop_of_open (p := p) hclosed s
    rw [hstop]
    dsimp only
    rw [core_unlockPid]
    exact hbus

/-! ## Runs -/

/-- What the user of a scheduler can do with it. -/
inductive Call where
  | start
  | tick
  | send (audience : Audience) (number : UInt64) (message : Message)
  | takeMessages
  | stop
deriving DecidableEq

namespace Call

/-- What comes of a call, and the scheduler and the world after it. -/
def perform (p : Premises σ) :
    Call → Scheduler → σ → Except Error Unit × Scheduler × σ
  | .start, c, s => c.start p s
  | .tick, c, s => c.tick p s
  | .send audience number message, c, s => c.send p audience number message s
  | .takeMessages, c, s => (.ok (), c.takeMessages.2, s)
  | .stop, c, s => c.stop p s

/-- Whether the call takes the pid lock, and if so, whether it can open the
bus then. -/
def opening? (p : Premises σ) : Call → Scheduler → σ → Option Bool
  | .start, c, s => c.opening? p s
  | _, _, _ => none

/-- Only starting and stopping is more than work. -/
theorem frame (hK : p.Spares K) {call : Call} (hstart : call ≠ .start) (hstop : call ≠ .stop)
    (c : Scheduler) (s : σ) :
    Core.Frame K (c.core, s) ((call.perform p c s).2.1.core, (call.perform p c s).2.2) := by
  cases call with
  | start => exact absurd rfl hstart
  | tick => exact (changes_tick c s).frame hK
  | send audience number message => exact (changes_send c audience number message s).frame hK
  | takeMessages => exact ⟨rfl, rfl, fun _ h => h, id⟩
  | stop => exact absurd rfl hstop

/-- A pool that is empty while the bus is closed stays so. -/
theorem empty {call : Call} {c : Scheduler} {s : σ} (hstop : call ≠ .stop)
    (h : c.core.ipc = none → c.core.workers.size = 0)
    (hclosed : (call.perform p c s).2.1.core.ipc = none) :
    (call.perform p c s).2.1.core.workers.size = 0 := by
  by_cases hstart : call = .start
  · subst hstart
    have hcases := start_cases p.spares_true c s
    rw [perform] at hclosed ⊢
    generalize c.opening? p s = attempt at hcases
    generalize c.start p s = out at hcases hclosed ⊢
    cases hcases with
    | serving | refused | stranded => exact h hclosed
    | opened _ hframe => exact absurd hclosed (hframe.opened (Option.some_ne_none _))
  · have hframe := Call.frame p.spares_true hstart hstop c s
    have hbefore : c.core.ipc = none := by
      apply Classical.byContradiction
      exact fun hopen => hframe.opened hopen hclosed
    exact hframe.empty hbefore (h hbefore)

end Call

/-- A scheduler is created with a valid configuration and nothing else. -/
theorem create_eq_ok {config : Config} {c : Scheduler} (h : create config = .ok c) :
    config.validate = .ok () ∧
      c = ⟨{ workers := .empty config.maxWorkers }, .empty config.tickInterval⟩ := by
  unfold create at h
  cases hvalid : config.validate with
  | error e =>
    rw [hvalid] at h
    cases h
  | ok _ =>
    rw [hvalid] at h
    exact ⟨rfl, (Except.ok.inj h).symm⟩

/-- A scheduler as calls leave it, in a world that others change as they may.
The list says of all starts that took the pid lock, the latest first, whether
they could open the bus then. -/
inductive Reachable (p : Premises σ) (others : σ → σ → Prop) :
    List Bool → Scheduler → σ → Prop where
  | created {c : Scheduler} (s : σ) : Scheduler.create p.config = .ok c →
      Reachable p others [] c s
  | called {past : List Bool} {c : Scheduler} {s : σ} (call : Call) :
      Reachable p others past c s →
      Reachable p others ((call.opening? p c s).toList ++ past)
        (call.perform p c s).2.1 (call.perform p c s).2.2
  | meanwhile {past : List Bool} {c : Scheduler} {s s' : σ} :
      Reachable p others past c s → others s s' → Reachable p others past c s'

/-- How a scheduler and the world go on as long as it is not stopped. -/
inductive Onward (p : Premises σ) (others : σ → σ → Prop) (c₀ : Scheduler) (s₀ : σ) :
    Scheduler → σ → Prop where
  | refl : Onward p others c₀ s₀ c₀ s₀
  | called {c : Scheduler} {s : σ} (call : Call) : Onward p others c₀ s₀ c s →
      call ≠ .stop →
      Onward p others c₀ s₀ (call.perform p c s).2.1 (call.perform p c s).2.2
  | meanwhile {c : Scheduler} {s s' : σ} : Onward p others c₀ s₀ c s → others s s' →
      Onward p others c₀ s₀ c s'

/-- A bus that is open stays open until the scheduler is stopped, and all calls
are work. -/
theorem Onward.frame {others : σ → σ → Prop} {c₀ c : Scheduler} {s₀ s : σ} (hK : p.Spares K)
    (hothers : ∀ {s s'}, others s s' → K s → K s') (hopen : c₀.core.ipc ≠ none)
    (h : Onward p others c₀ s₀ c s) : Core.Frame K (c₀.core, s₀) (c.core, s) := by
  induction h with
  | refl => exact .refl K _
  | called call _ hstop ih =>
    by_cases hstart : call = .start
    · subst hstart
      rw [Call.perform, start_of_open (ih.opened hopen)]
      exact ih
    · exact ih.trans (Call.frame hK hstart hstop _ _)
  | meanwhile _ hchange ih =>
    exact ih.trans ⟨rfl, rfl, fun _ h => h, hothers hchange⟩

end Supervisor.Scheduler
