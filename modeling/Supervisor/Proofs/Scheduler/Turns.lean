import Mathlib.Logic.Relation
import Supervisor.Proofs.Bus.Phases
import Supervisor.Scheduler

/-!
# What the turns of the control loop are made of

A turn polls, hands streams that are ready to the bus, takes in what workers
report and what the backend saw, and balances the pool.  A `Change` is one of
these.  A turn, a message that is sent and the wait for the ends of workers
are sequences of changes (`changes_tick`, `changes_send`, `changes_awaitEnds`).
Whatever every change keeps is so kept by whole runs of the scheduler; nothing
else has to look into the loop.

`Reactor.steps_tick` is the part of this that any user of a reactor needs.
-/

namespace Supervisor

open Relation (ReflTransGen)

namespace Poll

variable {α σ : Type} {host : Host σ} {handler : Handler α σ} {Step : σ → σ → Prop}

/-- All that the host and the user of a reactor do to the state in a tick are
steps. -/
structure Handler.Takes (host : Host σ) (handler : Handler α σ) (Step : σ → σ → Prop) : Prop where
  poll : ∀ entries timeout s, ReflTransGen Step s (host.poll entries timeout s).2
  sleep : ∀ d s, ReflTransGen Step s (host.sleep d s)
  ready : ∀ id sel s, ReflTransGen Step s (handler.onReady id sel s).2.2
  timeout : ∀ id sel s, ReflTransGen Step s (handler.onTimeout id sel s).2.2

namespace Reactor

theorem steps_serve (h : handler.Takes host Step) (now : Duration)
    (report : StreamId → Readiness) (o : Observed α) (s : σ) :
    ReflTransGen Step s (serve handler now report o s).2.2 := by
  unfold serve
  dsimp only
  split
  · exact h.ready o.id _ s
  · split
    · exact h.timeout o.id _ s
    · exact .refl

theorem steps_serveAll (h : handler.Takes host Step) (now : Duration)
    (report : StreamId → Readiness) (observed : List (Observed α)) (s : σ) :
    ReflTransGen Step s (serveAll handler now report observed s).2.2 := by
  induction observed generalizing s with
  | nil => exact .refl
  | cons o rest ih =>
    have hone := steps_serve h now report o s
    unfold serveAll
    generalize serve handler now report o s = served at hone ⊢
    obtain ⟨outcome, o', s'⟩ := served
    cases outcome with
    | error e => exact hone
    | ok count => exact hone.trans (ih s')

theorem steps_pollMerged (h : handler.Takes host Step) (entries : List PollEntry)
    (budget : Duration) (s : σ) :
    ReflTransGen Step s (pollMerged host entries budget s).2 := by
  have hpoll := h.poll entries (some budget) s
  unfold pollMerged
  split
  · exact h.sleep budget s
  · generalize host.poll entries (some budget) s = polled at hpoll ⊢
    obtain ⟨result, s'⟩ := polled
    cases result with
    | reported | interrupted | failed => exact hpoll

/-- A tick does nothing to the state but what its calls do. -/
theorem steps_tick (h : handler.Takes host Step) (r : Reactor α) (s : σ) :
    ReflTransGen Step s (r.tick host handler s).2.2 := by
  unfold tick
  dsimp only
  have hpoll := steps_pollMerged h
    ((r.observed.map fun o => { o with selector := o.selector.pruneClosed }).flatMap
      fun o => o.selector.pollEntries) (r.waitBudget (host.clock s)) s
  generalize pollMerged host _ _ s = polled at hpoll ⊢
  obtain ⟨outcome, s'⟩ := polled
  cases outcome with
  | error e => exact hpoll
  | ok report => exact hpoll.trans (steps_serveAll h (host.clock s') report _ s')

end Reactor

end Poll

namespace Scheduler

open Bus (Routing Peer Broker)
open Lifecycle (Event)
open Poll (Host Selector Reactor)

variable {σ : Type} {p : Premises σ}

namespace Core

/-- An event that neither asks for a worker nor ends one. -/
def IsNews : Event → Prop
  | .workerCreate _ | .workerTerminate _ _ => False
  | _ => True

/-- One change of the control loop and the world. -/
inductive Change (p : Premises σ) : Core × σ → Core × σ → Prop where
  | called {c : Core} {s s' : σ} : p.host.Call s s' → Change p (c, s) (c, s')
  | slept (c : Core) (d : Duration) (s : σ) : Change p (c, s) (c, p.host.sleep d s)
  /-- The bus changes its state of routing. -/
  | routed {c : Core} {routing : Routing} {id : SelectorId} (routing' : Routing) (s : σ) :
      c.ipc = some (routing, id) → Change p (c, s) ({ c with ipc := some (routing', id) }, s)
  /-- Messages for the scheduler are put aside. -/
  | received (c : Core) (received : List Envelope) (s : σ) :
      Change p (c, s) ({ c with received }, s)
  | reported {c : Core} {report : Worker.Record} {workers : Pool.Collection} (s : σ) :
      c.workers.update report = .ok workers → Change p (c, s) ({ c with workers }, s)
  /-- The backend is told something, and the scheduler takes note of its answer. -/
  | told (c : Core) {e : Event} (s : σ) : IsNews e → Change p (c, s) (Core.raise p c e s).2
  /-- The scheduler is to stop. -/
  | asked (c : Core) (s : σ) : Change p (c, s) ({ c with terminating := true }, s)
  | balanced {c : Core} (s : σ) : c.terminating = false → Change p (c, s) (c.balance p s)

/-- Changes, one after another. -/
abbrev Changes (p : Premises σ) : Core × σ → Core × σ → Prop :=
  ReflTransGen (Change p)

theorem changes_calls (c : Core) {s s' : σ} (h : p.host.Calls s s') :
    Changes p (c, s) (c, s') := by
  induction h with
  | refl => exact .refl
  | tail _ hcall ih => exact ih.tail (.called hcall)

/-! ## Envelopes -/

theorem changes_take (c : Core) (e : Envelope) (s : σ) : Changes p (c, s) (c.take p e s) := by
  unfold take
  split
  · rename_i report _
    split
    · exact .refl
    · split
      · exact .refl
      · rename_i workers hupdate
        have hreported : Change p (c, s) ({ c with workers }, s) := .reported s hupdate
        refine (ReflTransGen.single hreported).tail (.told _ s ?_)
        split
        · trivial
        · trivial
  · exact .single (.received c _ s)

theorem changes_takeAll (inbox : List Envelope) (c : Core) (s : σ) :
    Changes p (c, s) (takeAll p inbox c s) := by
  induction inbox generalizing c s with
  | nil => exact .refl
  | cons e rest ih => exact (changes_take c e s).trans (ih _ _)

/-! ## Turns -/

theorem reap_eq (c : Core) (s : σ) : c.reap p s = (c.raise p .schedulerLoop s).2 := by
  unfold reap raise
  generalize p.bus.raise .schedulerLoop s = raised
  obtain ⟨outcome, s'⟩ := raised
  cases outcome with
  | error | ok => rfl

/-- Ending a worker is marking it terminated and raising an event. -/
theorem stopWorker_eq (uid : WorkerId) (hard : Bool) (c : Core) (s : σ) :
    c.stopWorker p uid hard s =
      (raise p { c with workers := c.workers.markTerminated uid (p.host.present s) }
        (.workerTerminate uid hard) s).2 := by
  unfold stopWorker Lifecycle.Bus.stopWorker raise
  generalize p.bus.raise (.workerTerminate uid hard) s = raised
  obtain ⟨outcome, s'⟩ := raised
  cases outcome with
  | error | ok => rfl

/-- Whatever the broker does, its bus stays open. -/
theorem changes_broker {c : Core} {routing : Routing} {id : SelectorId}
    (hbus : c.ipc = some (routing, id)) {b b' : Broker σ} (h : Bus.Broker.Acts p.host b b') :
    Changes p (c, b.world) ({ c with ipc := some (b'.toRouting, id) }, b'.world) :=
  (changes_calls c h.calls).tail (.routed _ _ hbus)

theorem changes_pass (c : Core) (r : Reactor Peer) (s : σ) :
    Changes p (c, s) ((c.pass p r s).2.1, (c.pass p r s).2.2.2) := by
  unfold pass
  split
  · exact .refl
  · rename_i routing id hbus
    split
    · exact .refl
    · rename_i selector _
      let b : Broker σ := { routing with selector, world := s }
      have hsweep := Bus.Broker.acts_sweep p.host b
      have hroute := Bus.Broker.acts_route p.host (b.sweep p.host).2
      exact changes_broker hbus ((hsweep.trans hroute).tail (.mail _ _ []))

/-- What happens after a tick before the pool is balanced: reports are taken
in, and ends, and whether to stop. -/
def settle (p : Premises σ) (r : Reactor Peer) (c : Core) (s : σ) :
    Except Error Unit × Reactor Peer × Core × σ :=
  match c.pass p r s with
  | (.error e, c, r, s) => (.error e, r, c, s)
  | (.ok inbox, c, r, s) =>
    let (c, s) := takeAll p inbox c s
    let (c, s) := c.reap p s
    (.ok (), r, { c with terminating := c.terminating || p.stopRequested s }, s)

/-- After it has settled, the control loop stops or balances the pool. -/
theorem onTick_eq (r : Reactor Peer) (c : Core) (s : σ) :
    onTick p r c s =
      match settle p r c s with
      | (.error e, r, c, s) => (.error e, r, c, s)
      | (.ok (), r, c, s) =>
        if c.terminating then (.ok (), { r with terminating := true }, c, s)
        else (.ok (), r, (c.balance p s).1, (c.balance p s).2) := by
  unfold onTick settle
  generalize c.pass p r s = passed
  obtain ⟨outcome, c, r, s⟩ := passed
  cases outcome with
  | error | ok => rfl

theorem changes_settle (r : Reactor Peer) (c : Core) (s : σ) :
    Changes p (c, s) ((settle p r c s).2.2.1, (settle p r c s).2.2.2) := by
  have hpass := changes_pass (p := p) c r s
  unfold settle
  generalize c.pass p r s = passed at hpass ⊢
  obtain ⟨outcome, c, r, s⟩ := passed
  cases outcome with
  | error e => exact hpass
  | ok inbox =>
    have htake := hpass.trans (changes_takeAll inbox c s)
    dsimp only
    generalize takeAll p inbox c s = taken at htake ⊢
    obtain ⟨c, s⟩ := taken
    have hreap := htake.tail (.told c (e := .schedulerLoop) s trivial)
    rw [← reap_eq] at hreap
    dsimp only
    generalize c.reap p s = reaped at hreap ⊢
    obtain ⟨c, s⟩ := reaped
    cases hasked : p.stopRequested s with
    | true =>
      simp only [Bool.or_true]
      exact hreap.tail (.asked c s)
    | false =>
      simp only [Bool.or_false]
      exact hreap

theorem changes_onTick (r : Reactor Peer) (c : Core) (s : σ) :
    Changes p (c, s) ((onTick p r c s).2.2.1, (onTick p r c s).2.2.2) := by
  have hsettle := changes_settle (p := p) r c s
  rw [onTick_eq]
  generalize settle p r c s = settled at hsettle ⊢
  obtain ⟨outcome, r, c, s⟩ := settled
  cases outcome with
  | error e => exact hsettle
  | ok _ =>
    dsimp only at hsettle ⊢
    cases hends : c.terminating with
    | true => exact hsettle
    | false => exact hsettle.tail (.balanced s hends)

theorem changes_onReady (id : SelectorId) (selector : Selector Peer) (c : Core) (s : σ) :
    Changes p (c, s) ((onReady p id selector c s).2.2.1, (onReady p id selector c s).2.2.2) := by
  unfold onReady
  split
  · exact .refl
  · rename_i routing ipc hbus
    split
    · rename_i hid
      have hserved := Bus.Broker.acts_onReady p.host { routing with selector, world := s }
      rw [hid] at hbus
      exact changes_broker hbus hserved
    · exact .refl

/-- The scheduler does nothing in a tick of its reactor but change. -/
theorem handler_takes (p : Premises σ) : (handler p).Takes p.host.onSecond (Change p) where
  poll entries timeout s := .single (.called (.poll entries timeout s.2))
  sleep d s := .single (.slept s.1 d s.2)
  ready id sel s := changes_onReady id sel s.1 s.2
  timeout _ _ _ := .refl

end Core

open Scheduler.Core (Changes)

/-- Waiting for the ends of workers is a sequence of changes. -/
theorem changes_awaitEnds (deadline : Duration) (rounds : Nat) (c : Core) (s : σ) :
    Changes p (c, s) (awaitEnds p deadline rounds c s) := by
  induction rounds generalizing c s with
  | zero => exact .refl
  | succ rounds ih =>
    unfold awaitEnds
    split
    · exact .refl
    · have hslept : Changes p (c, s) (c, p.host.sleep shutdownPause s) :=
        .single (.slept c shutdownPause s)
      have hreaped := hslept.tail (.told c (e := .schedulerLoop) _ trivial)
      rw [← Core.reap_eq] at hreaped
      exact hreaped.trans (ih _ _)

/-- A turn of the control loop is a sequence of changes. -/
theorem changes_tick (c : Scheduler) (s : σ) :
    Changes p (c.core, s) ((c.tick p s).2.1.core, (c.tick p s).2.2) := by
  have htick := Reactor.steps_tick (Core.handler_takes p) c.reactor (c.core, s)
  unfold tick
  generalize c.reactor.tick p.host.onSecond (Core.handler p) (c.core, s) = ticked at htick ⊢
  obtain ⟨outcome, reactor, core, s'⟩ := ticked
  cases outcome with
  | error e => exact htick
  | ok n => exact htick.trans (Core.changes_onTick reactor core s')

/-- Sending a message is a sequence of changes. -/
theorem changes_send (c : Scheduler) (audience : Audience) (number : UInt64) (message : Message)
    (s : σ) :
    Changes p (c.core, s)
      ((c.send p audience number message s).2.1.core,
        (c.send p audience number message s).2.2) := by
  unfold send
  split
  · exact .refl
  · rename_i routing id hbus
    split
    · exact .refl
    · rename_i selector _
      let b : Broker σ := { routing with selector, world := s }
      let e : Envelope := ⟨.server, audience, number, message⟩
      have hsubmit := Bus.Broker.acts_submit p.host b e
      exact Core.changes_broker hbus (hsubmit.trans (Bus.Broker.acts_route p.host _))

end Scheduler

end Supervisor
