import Supervisor.Proofs.Backend.Replies
import Supervisor.Proofs.Scheduler.Signals

/-!
# A scheduler that is to stop

The order to stop can come at any time: from outside, from the backend while
the scheduler takes in reports and ends, and from the user who stops it.  From
then on no worker is wanted any more, until the scheduler is started again.

* `Premises.recorded` are the premises with a log of all that the backend is
  called on.
* `Abstains` is what all work but balancing the pool does: it wants no worker,
  and takes no order to stop back.  `Premises.idle` are premises under which
  balancing does nothing, so that the changes under them are the other work.
* Balancing brings no order to stop (`terminating_balance`), so a turn that
  leaves one has not come to balancing (`abstains_onTick`).
* `no_creation_once_terminating` puts this together for the runs of
  `Unstarted`.
-/

namespace Supervisor.Scheduler

open Bus (Routing Peer Broker)
open Lifecycle (Event Provided)
open Poll (Reactor)

variable {σ : Type} {p : Premises σ}

/-- A world with a log of the calls of listeners. -/
abbrev Recorded (σ : Type) :=
  List Lifecycle.Call × σ

/-- The settings of all workers that were wanted so far. -/
def Recorded.wanted (x : Recorded σ) : List Worker.Settings :=
  Lifecycle.Call.creations x.1

/-- The premises in a world with a log. -/
def Premises.recorded (p : Premises σ) : Premises (Recorded σ) :=
  { p.onSecond with bus := p.bus.recorded }

/-- The log gets the calls of a raise, and nothing else is different. -/
theorem Premises.raise_recorded (p : Premises σ) (e : Event) (x : Recorded σ) :
    p.recorded.bus.raise e x =
      ((p.bus.raise e x.2).1, x.1 ++ p.bus.calls e x.2, (p.bus.raise e x.2).2) :=
  p.bus.raise_recorded e x.1 x.2

/-- The premises with a discipline that wants nothing. -/
def Premises.idle (p : Premises σ) : Premises σ :=
  { p with discipline := fun _ _ s => (⟨0, []⟩, s) }

namespace Core

/-- No worker was wanted, and an order to stop stands. -/
structure Abstains (x y : Core × Recorded σ) : Prop where
  wanted : y.2.wanted = x.2.wanted
  stands : x.1.terminating = true → y.1.terminating = true

namespace Abstains

variable {x y z : Core × Recorded σ}

theorem refl (x : Core × Recorded σ) : Abstains x x :=
  ⟨rfl, id⟩

theorem trans (h : Abstains x y) (h' : Abstains y z) : Abstains x z :=
  ⟨h'.wanted.trans h.wanted, fun hx => h'.stands (h.stands hx)⟩

/-- The log and the order to stop are all that matters. -/
theorem of_eq (hlog : y.2.1 = x.2.1) (hflag : y.1.terminating = x.1.terminating) :
    Abstains x y :=
  ⟨congrArg Lifecycle.Call.creations hlog, fun hx => hflag.trans hx⟩

end Abstains

/-! ## Raises -/

theorem terminating_noteAll (events : List Event) (c : Core) :
    (c.noteAll events).terminating = true ↔ c.terminating = true ∨ .schedulerStop ∈ events := by
  induction events generalizing c with
  | nil => simp [noteAll]
  | cons e events ih =>
    rw [noteAll_cons, ih]
    cases e <;> simp [note]

theorem terminating_raise (hbus : Provided p.bus) {e : Event} (he : e ≠ .schedulerLoop) (c : Core)
    (x : Recorded σ) : (c.raise p.recorded e x).2.1.terminating = c.terminating := by
  unfold raise
  rw [p.raise_recorded]
  cases hraise : (p.bus.raise e x.2).1 with
  | error => rfl
  | ok events =>
    have hstop := hbus.not_mem_of_raise he hraise
    rw [Bool.eq_iff_iff]
    simp [terminating_noteAll, hstop]

theorem abstains_bus (hbus : Provided p.bus) {e : Event}
    (he : ∀ settings, e ≠ .workerCreate settings) (c : Core) (x : Recorded σ) :
    Abstains (c, x) (c, (p.recorded.bus.raise e x).2) := by
  rw [p.raise_recorded]
  exact ⟨by simp [Recorded.wanted, hbus.creations_calls he], id⟩

theorem abstains_raise (hbus : Provided p.bus) {e : Event}
    (he : ∀ settings, e ≠ .workerCreate settings) (c : Core) (x : Recorded σ) :
    Abstains (c, x) (c.raise p.recorded e x).2 := by
  have hraised := abstains_bus hbus he c x
  unfold raise
  generalize p.recorded.bus.raise e x = raised at hraised ⊢
  obtain ⟨outcome, x'⟩ := raised
  cases outcome with
  | error => exact hraised
  | ok events =>
    exact hraised.trans ⟨rfl, fun hflag => (terminating_noteAll events c).mpr (.inl hflag)⟩

theorem ne_workerCreate_of_news {e : Event} (h : IsNews e) (settings : Worker.Settings) :
    e ≠ .workerCreate settings := by
  rintro rfl
  exact h

/-! ## Workers -/

theorem terminating_stopWorker (hbus : Provided p.bus) (uid : WorkerId) (hard : Bool) (c : Core)
    (x : Recorded σ) :
    (c.stopWorker p.recorded uid hard x).1.terminating = c.terminating := by
  rw [stopWorker_eq]
  exact terminating_raise hbus (by simp) _ x

theorem abstains_stopWorker (hbus : Provided p.bus) (uid : WorkerId) (hard : Bool) (c : Core)
    (x : Recorded σ) : Abstains (c, x) (c.stopWorker p.recorded uid hard x) := by
  let marked : Core := { c with workers := c.workers.markTerminated uid (p.host.present x.2) }
  have hmarked : Abstains (c, x) (marked, x) := .of_eq rfl rfl
  rw [stopWorker_eq]
  exact hmarked.trans (abstains_raise hbus (by simp) marked x)

theorem terminating_stopWorkers (hbus : Provided p.bus) (hard : Bool) (uids : List WorkerId)
    (c : Core) (x : Recorded σ) :
    (stopWorkers p.recorded hard uids c x).1.terminating = c.terminating := by
  induction uids generalizing c x with
  | nil => rfl
  | cons uid uids ih => exact (ih _ _).trans (terminating_stopWorker hbus uid hard c x)

theorem abstains_stopWorkers (hbus : Provided p.bus) (hard : Bool) (uids : List WorkerId)
    (c : Core) (x : Recorded σ) :
    Abstains (c, x) (stopWorkers p.recorded hard uids c x) := by
  induction uids generalizing c x with
  | nil => exact .refl _
  | cons uid uids ih => exact (abstains_stopWorker hbus uid hard c x).trans (ih _ _)

theorem terminating_createWorker (hbus : Provided p.bus) (c : Core) (x : Recorded σ) :
    (c.createWorker p.recorded x).1.terminating = c.terminating := by
  unfold createWorker
  split
  · rfl
  · dsimp only
    split
    · rfl
    · split
      · rfl
      · exact terminating_stopWorker hbus _ true c _

theorem terminating_createWorkers (hbus : Provided p.bus) (n : Nat) (c : Core)
    (x : Recorded σ) :
    (createWorkers p.recorded n c x).1.terminating = c.terminating := by
  induction n generalizing c x with
  | zero => rfl
  | succ n ih => exact (ih _ _).trans (terminating_createWorker hbus c x)

/-- Balancing the pool brings no order to stop. -/
theorem terminating_balance (hbus : Provided p.bus) (c : Core) (x : Recorded σ) :
    (c.balance p.recorded x).1.terminating = c.terminating := by
  unfold balance
  exact (terminating_stopWorkers hbus false _ _ _).trans (terminating_createWorkers hbus _ c _)

/-! ## Turns -/

/-- While the scheduler is to stop, the pool is not balanced. -/
theorem Change.idle {x y : Core × σ} (h : Change p x y) (hflag : x.1.terminating = true) :
    Change p.idle x y := by
  cases h with
  | called hcall => exact .called hcall
  | slept c d s => exact .slept c d s
  | routed routing' s hbus => exact .routed routing' s hbus
  | received c received s => exact .received c received s
  | reported s hupdate => exact .reported s hupdate
  | told c s hnews => exact .told c s hnews
  | asked c s => exact .asked c s
  | balanced s hflag' =>
    rw [hflag] at hflag'
    cases hflag'

theorem Change.abstains (hbus : Provided p.bus) {x y : Core × Recorded σ}
    (h : Change p.recorded.idle x y) : Abstains x y := by
  cases h with
  | called hcall => exact .of_eq hcall.fst_onSecond rfl
  | slept | routed | received | reported => exact .of_eq rfl rfl
  | told c s hnews => exact abstains_raise hbus (ne_workerCreate_of_news hnews) c s
  | asked => exact ⟨rfl, fun _ => rfl⟩
  | balanced => exact .refl _

theorem Changes.abstains (hbus : Provided p.bus) {x y : Core × Recorded σ}
    (h : Changes p.recorded.idle x y) : Abstains x y := by
  induction h with
  | refl => exact .refl _
  | tail _ hchange ih => exact ih.trans (hchange.abstains hbus)

theorem Changes.abstains_of_terminating (hbus : Provided p.bus) {x y : Core × Recorded σ}
    (h : Changes p.recorded x y) (hflag : x.1.terminating = true) : Abstains x y := by
  induction h with
  | refl => exact .refl _
  | tail _ hchange ih => exact ih.trans ((hchange.idle (ih.stands hflag)).abstains hbus)

theorem takeAll_idle (p : Premises σ) (inbox : List Envelope) (c : Core) (s : σ) :
    takeAll p.idle inbox c s = takeAll p inbox c s := by
  induction inbox generalizing c s with
  | nil => rfl
  | cons e inbox ih => exact ih _ _

/-- The pool settles the same whether or not it is balanced afterwards. -/
theorem settle_idle (p : Premises σ) (r : Reactor Peer) (c : Core) (s : σ) :
    settle p.idle r c s = settle p r c s := by
  unfold settle
  rw [show c.pass p.idle r s = c.pass p r s from rfl]
  generalize c.pass p r s = passed
  obtain ⟨outcome, c', r', s'⟩ := passed
  cases outcome with
  | error e => rfl
  | ok inbox =>
    dsimp only
    rw [takeAll_idle]
    rfl

/-- A turn of the reactor does not balance the pool. -/
theorem takes_idle (p : Premises σ) :
    (handler p).Takes p.host.onSecond (Change p.idle) where
  poll := (handler_takes p.idle).poll
  sleep := (handler_takes p.idle).sleep
  ready := (handler_takes p.idle).ready
  timeout := (handler_takes p.idle).timeout

/-- If there is an order to stop after a turn, the pool was not balanced in it,
and the reactor knows of the order. -/
theorem abstains_onTick (hbus : Provided p.bus) (r : Reactor Peer) (c : Core)
    (x : Recorded σ) (hflag : (onTick p.recorded r c x).2.2.1.terminating = true) :
    Abstains (c, x) ((onTick p.recorded r c x).2.2.1, (onTick p.recorded r c x).2.2.2) ∧
      ((onTick p.recorded r c x).1 = .ok () →
        (onTick p.recorded r c x).2.1.terminating = true) := by
  have hsettle := Changes.abstains hbus (changes_settle (p := p.recorded.idle) r c x)
  rw [settle_idle] at hsettle
  rw [onTick_eq] at hflag ⊢
  generalize settle p.recorded r c x = settled at hsettle hflag ⊢
  obtain ⟨outcome, r', c', x'⟩ := settled
  cases outcome with
  | error e => exact ⟨hsettle, nofun⟩
  | ok _ =>
    dsimp only at hsettle hflag ⊢
    cases hends : c'.terminating with
    | true => exact ⟨hsettle, fun _ => rfl⟩
    | false =>
      -- The pool was balanced, and balancing would have to have brought the order.
      simp only [hends, Bool.false_eq_true, if_false] at hflag
      rw [terminating_balance hbus, hends] at hflag
      cases hflag

end Core

open Scheduler.Core (Abstains)

variable {c : Scheduler} {x : Recorded σ}

/-- A turn after which there is an order to stop wants no worker, and if it
succeeds, the reactor knows of the order. -/
theorem abstains_tick (hbus : Provided p.bus)
    (hflag : (c.tick p.recorded x).2.1.core.terminating = true) :
    Abstains (c.core, x) ((c.tick p.recorded x).2.1.core, (c.tick p.recorded x).2.2) ∧
      ((c.tick p.recorded x).1 = .ok () →
        (c.tick p.recorded x).2.1.reactor.terminating = true) := by
  have htick := Core.Changes.abstains hbus
    (Reactor.steps_tick (Core.takes_idle p.recorded) c.reactor (c.core, x))
  unfold tick at hflag ⊢
  generalize c.reactor.tick _ (Core.handler p.recorded) (c.core, x) = ticked at htick hflag ⊢
  obtain ⟨outcome, reactor, core, x'⟩ := ticked
  cases outcome with
  | error e => exact ⟨htick, nofun⟩
  | ok n =>
    have ⟨hafter, hreactor⟩ := Core.abstains_onTick hbus reactor core x' hflag
    exact ⟨htick.trans hafter, hreactor⟩

/-! ## Starting and stopping -/

theorem terminating_launch (hbus : Provided p.bus) (c : Scheduler) (x : Recorded σ) :
    (c.launch p.recorded x).2.1.core.terminating = c.core.terminating := by
  apply related_launch (R := fun x y => y.1.terminating = x.1.terminating) _ _ _ c x
  · intro x y z hxy hyz
    exact hyz.trans hxy
  · intro c x e he
    apply Core.terminating_raise hbus
    rcases he with rfl | rfl <;> simp
  · exact Core.terminating_createWorkers hbus p.recorded.config.startWorkers

/-- A start neither brings an order to stop nor takes one back. -/
theorem terminating_start (hbus : Provided p.bus) (c : Scheduler) (x : Recorded σ) :
    (c.start p.recorded x).2.1.core.terminating = c.core.terminating := by
  unfold start
  split
  · rfl
  rcases lockPid_cases p.recorded c x with ⟨e, hlock⟩ | hlock
  · rw [hlock]
  rw [hlock]
  obtain ⟨s₁, _, hopen⟩ := openBus_cases (p := p.recorded) (K := fun _ => True) (fun _ _ _ => id)
    c.locked (p.recorded.setLockFile (PidLock.renewed p.recorded.own c.core.lock) x)
  rcases hopen with ⟨e, hopen⟩ | ⟨bus, reactor, hopen⟩
  · simp only [hopen]
    rfl
  · simp only [hopen]
    exact terminating_launch hbus _ s₁

theorem Core.abstains_endWithin (hbus : Provided p.bus) (rounds : Nat) (c : Core)
    (x : Recorded σ) (hflag : c.terminating = true) :
    Abstains (c, x) (c.endWithin p.recorded rounds x) := by
  have hstopped := abstains_stopWorkers hbus true c.workers.uids c x
  unfold endWithin
  generalize stopWorkers p.recorded true c.workers.uids c x = stopped at hstopped ⊢
  obtain ⟨c', x'⟩ := stopped
  have hawaited := hstopped.trans (Changes.abstains_of_terminating hbus
    (changes_awaitEnds (p.recorded.host.clock x' + p.recorded.config.shutdownTimeout) rounds c' x')
    (hstopped.stands hflag))
  exact hawaited.trans (.of_eq rfl rfl)

theorem abstains_closeBus (hbus : Provided p.bus) (routing : Routing) (id : SelectorId)
    (r : Reactor Peer) (c : Core) (x : Recorded σ) :
    Abstains (c, x) (c, (closeBus p.recorded routing id r x).2) := by
  unfold closeBus
  split
  · exact .refl _
  · rename_i selector _ _
    have hclosed := Broker.acts_close p.recorded.host { routing with selector, world := x }
    exact Core.Changes.abstains hbus (Core.changes_calls (p := p.recorded.idle) c hclosed.calls)

theorem abstains_unlockPid (p : Premises σ) (c : Core) (x : Recorded σ) :
    Abstains (c, x) ((unlockPid p.recorded c x).2.1, (unlockPid p.recorded c x).2.2) := by
  unfold unlockPid
  split
  · exact .refl _
  · exact .of_eq rfl rfl

/-- A stop wants no worker. -/
theorem abstains_stop (hbus : Provided p.bus) (c : Scheduler) (x : Recorded σ) :
    Abstains (c.core, x) ((c.stop p.recorded x).2.1.core, (c.stop p.recorded x).2.2) := by
  cases hopen : c.core.ipc with
  | none =>
    rw [stop_of_closed hopen]
    exact .refl _
  | some bus =>
    obtain ⟨routing, id⟩ := bus
    apply related_stop (R := Abstains) hopen Abstains.trans
    · let closing : Core := { c.core with ipc := none, terminating := true }
      have hclosing : Abstains (c.core, x) (closing, x) := ⟨rfl, fun _ => rfl⟩
      rw [Core.endWorkers_eq]
      exact hclosing.trans (Core.abstains_endWithin hbus _ closing x rfl)
    · intro core x _
      exact Core.abstains_bus hbus (by simp) core x
    · intro core r x
      exact abstains_closeBus hbus routing id r core x
    · exact abstains_unlockPid p

/-! ## Calls -/

/-- How a scheduler and the world go on as long as it is not started. -/
inductive Unstarted (p : Premises σ) (others : σ → σ → Prop) (c₀ : Scheduler) (s₀ : σ) :
    Scheduler → σ → Prop where
  | refl : Unstarted p others c₀ s₀ c₀ s₀
  | called {c : Scheduler} {s : σ} (call : Call) : Unstarted p others c₀ s₀ c s →
      call ≠ .start →
      Unstarted p others c₀ s₀ (call.perform p c s).2.1 (call.perform p c s).2.2
  | meanwhile {c : Scheduler} {s s' : σ} : Unstarted p others c₀ s₀ c s → others s s' →
      Unstarted p others c₀ s₀ c s'

/-- Whatever call is made but a start: if there is an order to stop after it,
it wanted no worker, and an order to stop before it stands. -/
theorem abstains_perform (hbus : Provided p.bus) {call : Call} (hstart : call ≠ .start)
    (hflag : (call.perform p.recorded c x).2.1.core.terminating = true) :
    Abstains (c.core, x)
      ((call.perform p.recorded c x).2.1.core, (call.perform p.recorded c x).2.2) := by
  cases call with
  | start => exact absurd rfl hstart
  | tick => exact (abstains_tick hbus hflag).1
  | send audience number message =>
    exact Core.Changes.abstains hbus
      (changes_send (p := p.recorded.idle) c audience number message x)
  | takeMessages => exact .of_eq rfl rfl
  | stop => exact abstains_stop hbus c x

/-- An order to stop stands until the scheduler is started. -/
theorem terminating_perform (hbus : Provided p.bus) {call : Call} (hstart : call ≠ .start)
    (x : Recorded σ) (hflag : c.core.terminating = true) :
    (call.perform p.recorded c x).2.1.core.terminating = true := by
  cases call with
  | start => exact absurd rfl hstart
  | tick => exact (Core.Changes.abstains_of_terminating hbus (changes_tick c x) hflag).stands hflag
  | send audience number message =>
    have hsent := changes_send (p := p.recorded) c audience number message x
    exact (Core.Changes.abstains_of_terminating hbus hsent hflag).stands hflag
  | takeMessages => exact hflag
  | stop => exact (abstains_stop hbus c x).stands hflag

/-- With an order to stop no worker is wanted until the scheduler is started. -/
theorem Unstarted.abstains (hbus : Provided p.bus) {c₀ : Scheduler} {x₀ : Recorded σ}
    (h : Unstarted p.recorded (fun x x' => x'.1 = x.1) c₀ x₀ c x)
    (hflag : c₀.core.terminating = true) : Abstains (c₀.core, x₀) (c.core, x) := by
  induction h with
  | refl => exact .refl _
  | @called c s call _ hstart ih =>
    have hafter := terminating_perform hbus hstart s (ih.stands hflag)
    exact ih.trans (abstains_perform hbus hstart hafter)
  | meanwhile _ hspared ih => exact ih.trans (.of_eq hspared rfl)

/-- A scheduler in any state, with one of the backends as the only listener of
its bus.  The log of its raises changes nothing, and misses nothing that wants
a worker.  No step within a call takes an order to stop back, or wants a worker
while there is one, and a start brings none.  If there is an order to stop
after any other call, no worker was wanted in that call, and none is from then
on until the scheduler is started again; all that time the order stands, and a
turn that succeeds tells the reactor. -/
theorem no_creation_once_terminating (hbus : Provided p.bus) :
    (∀ e (x : Recorded σ), p.recorded.bus.raise e x =
        ((p.bus.raise e x.2).1, x.1 ++ p.bus.calls e x.2, (p.bus.raise e x.2).2)) ∧
      (∀ settings s,
        settings ∈ Lifecycle.Call.creations (p.bus.calls (.workerCreate settings) s)) ∧
      (∀ y z : Core × Recorded σ, Core.Change p.recorded y z → y.1.terminating = true →
        z.1.terminating = true ∧ z.2.wanted = y.2.wanted) ∧
      ∀ (c : Scheduler) (x : Recorded σ),
        (c.start p.recorded x).2.1.core.terminating = c.core.terminating ∧
          ∀ call : Call, call ≠ .start →
            let after := call.perform p.recorded c x
            after.2.1.core.terminating = true →
              (call = .tick → after.1 = .ok () → after.2.1.reactor.terminating = true) ∧
                ∀ c' x', Unstarted p.recorded (fun x x' => x'.1 = x.1) after.2.1 after.2.2 c' x' →
                  c'.core.terminating = true ∧ x'.wanted = x.wanted ∧
                    ((c'.tick p.recorded x').1 = .ok () →
                      (c'.tick p.recorded x').2.1.reactor.terminating = true) := by
  refine ⟨p.raise_recorded, hbus.mem_creations_calls, fun y z hchange hflag => ?_, fun c x =>
    ⟨terminating_start hbus c x, fun call hstart => ?_⟩⟩
  · have habstains := (hchange.idle hflag).abstains hbus
    exact ⟨habstains.stands hflag, habstains.wanted⟩
  · intro after hflag
    refine ⟨?_, fun c' x' hrun => ?_⟩
    · rintro rfl
      exact (abstains_tick hbus hflag).2
    · have hcall : Abstains (c.core, x) (after.2.1.core, after.2.2) :=
        abstains_perform hbus hstart hflag
      have hsince := hrun.abstains hbus hflag
      have hstands := hsince.stands hflag
      have hnext : (Call.tick.perform p.recorded c' x').2.1.core.terminating = true :=
        terminating_perform hbus (show Call.tick ≠ .start from nofun) x' hstands
      exact ⟨hstands, (hcall.trans hsince).wanted, (abstains_tick hbus hnext).2⟩

/-- Every process has ended when anybody looks, and with every process that is
forked the supervisor gets another parent. -/
def deserted : Backend.ProcessCalls (Node × Int32 × Sim.World) where
  fork _ s := (.ok s.2.1, s.1, s.2.1 + 1, s.2.2)
  kill _ _ s := (.nobody, s)
  reap s := .child (s.2.1 - 1) none (.nobody s)
  parent s := s.2.1

/-- Running it means running it on the bus with the chains written out. -/
theorem recorded_deserted :
    (lingering.forking deserted).recorded =
      { (lingering.forking deserted).recorded with
        bus := ⟨[Lifecycle.Listener.recorded 0 (Backend.Fork.react deserted)], fun kind =>
          if kind ∈ Lifecycle.Backend.subscriptions.map Prod.fst then [⟨0, 0⟩] else []⟩ } := by
  have hbus : (lingering.forking deserted).bus = Backend.Fork.bus deserted := rfl
  rw [Backend.Fork.bus_eq] at hbus
  rw [Premises.recorded, hbus]
  rfl

/-- The one worker of a pool has ended, and the supervisor has lost its parent:
in that turn nobody takes the place of the worker. -/
theorem no_creation_once_terminating_orphaned :
    let p := lingering.forking deserted
    let started := (lone.start p.recorded ([], .empty, .nothing, 100, {})).2
    let turned := started.1.tick p.recorded started.2
    Provided p.bus ∧ started.2.wanted.length = 1 ∧ turned.1 = .ok () ∧
      turned.2.1.core.terminating = true ∧ turned.2.1.core.workers.size = 0 ∧
        turned.2.1.reactor.terminating = true ∧ turned.2.2.wanted = started.2.wanted := by
  intro p started turned
  have hbus : Provided p.bus := .fork deserted
  have hturn : started.2.wanted.length = 1 ∧ turned.1 = .ok () ∧
      turned.2.1.core.terminating = true ∧ turned.2.1.core.workers.size = 0 := by
    show ((lone.start p.recorded ([], .empty, .nothing, 100, {})).2.2.wanted.length = 1 ∧ _)
    dsimp only [started, turned, p]
    rw [recorded_deserted]
    exact ⟨rfl, rfl, rfl, rfl⟩
  obtain ⟨hone, hok, hflag, hempty⟩ := hturn
  clear_value started
  obtain ⟨_, _, _, hall⟩ := no_creation_once_terminating hbus
  obtain ⟨hreactor, hsince⟩ := (hall started.1 started.2).2 .tick nofun hflag
  exact ⟨hbus, hone, hok, hflag, hempty, hreactor rfl hok, (hsince _ _ .refl).2.1⟩

end Supervisor.Scheduler
