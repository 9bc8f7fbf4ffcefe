import Supervisor.Proofs.Scheduler.Calls

/-!
# Invariants of whole runs

What a run of a scheduler keeps is shown of the things that a scheduler does
to its workers and to the backend, one by one.  The rest is the same for every
invariant, and is here.

* `Premises.Aside` is what happens to the world past the backend, and
  `Premises.Upholds` is the list of what has to be shown of a property of the
  workers and the world.
* `Upholds.changes`, `Upholds.start`, `Upholds.stop` and `Upholds.perform` go
  from there to the calls on a scheduler.
* `Lifetime` is a run from the creation on, in a world that is known, and
  `Lifetime.run` says that the loop which runs a scheduler until it is to stop
  is such a run as well.
-/

namespace Supervisor.Scheduler

open Bus (Routing Peer Broker)
open Lifecycle (Event)
open Poll (Reactor)

variable {σ : Type} {p : Premises σ} {others : σ → σ → Prop} {Good : Core × σ → Prop}

/-- What a scheduler does to the world without the backend. -/
inductive Premises.Aside (p : Premises σ) : σ → σ → Prop where
  | call {s s' : σ} : p.host.Call s s' → Aside p s s'
  | sleep (d : Duration) (s : σ) : Aside p s (p.host.sleep d s)
  | bind (address : Address) (shared : Bool) (s : σ) :
      Aside p s (p.host.bind address shared s).2
  | lock (n : Node) (s : σ) : Aside p s (p.setLockFile n s)

/-- A property of the workers and the world that all work on the pool keeps.
Whoever is to be ended is in the pool at the time. -/
structure Premises.Upholds (p : Premises σ) (Good : Core × σ → Prop) : Prop where
  core : ∀ {c c' : Core} {s : σ}, Good (c, s) → c'.workers = c.workers → Good (c', s)
  aside : ∀ {c : Core} {s s' : σ}, p.Aside s s' → Good (c, s) → Good (c, s')
  update : ∀ {c : Core} {s : σ} {report : Worker.Record} {workers : Pool.Collection},
    c.workers.update report = .ok workers → Good (c, s) → Good ({ c with workers }, s)
  tell : ∀ {c : Core} {s : σ} {e : Event}, Core.IsNews e → Good (c, s) → Good (c.raise p e s).2
  create : ∀ {c : Core} {s : σ}, Good (c, s) → Good (c.createWorker p s)
  endAll : ∀ {c : Core} {s : σ} {uids : List WorkerId} (hard : Bool),
    (∀ uid ∈ uids, c.workers.find? uid ≠ none) → Good (c, s) →
    Good (Core.stopWorkers p hard uids c s)
  balance : ∀ {c : Core} {s : σ}, Good (c, s) → Good (c.balance p s)
  clear : ∀ {c : Core} {s : σ}, Good (c, s) → Good ({ c with workers := c.workers.clear }, s)

theorem Core.noteAll_of_empty {c : Core} (h : c.workers.size = 0) (events : List Event) :
    (c.noteAll events).workers = c.workers := by
  induction events generalizing c with
  | nil => rfl
  | cons e events ih =>
    have hnoted : (c.note e).workers = c.workers := by
      cases e with
      | workerTerminated uid code =>
        have hnone : c.workers.workers.find? uid = none := by
          rw [Table.find?_eq_none_iff, Table.keys, List.eq_nil_of_length_eq_zero h]
          exact List.not_mem_nil
        show c.workers.remove uid = c.workers
        rw [Pool.Collection.remove, Table.erase_of_find?_eq_none hnone]
      | _ => rfl
    have hrest := ih (c := c.note e) (by rw [hnoted]; exact h)
    exact hrest.trans hnoted

namespace Premises.Upholds

open Scheduler.Core (Change Changes)

variable {c : Core} {s s' : σ} {x y : Core × σ}

theorem calls (h : p.Upholds Good) (hcalls : p.host.Calls s s') (hgood : Good (c, s)) :
    Good (c, s') := by
  induction hcalls with
  | refl => exact hgood
  | tail _ hcall ih => exact h.aside (.call hcall) ih

theorem change (h : p.Upholds Good) (hchange : Change p x y) (hx : Good x) : Good y := by
  cases hchange with
  | called hcall => exact h.aside (.call hcall) hx
  | slept c d s => exact h.aside (.sleep d s) hx
  | routed | received | asked => exact h.core hx rfl
  | reported s hupdate => exact h.update hupdate hx
  | told c s hnews => exact h.tell hnews hx
  | balanced s _ => exact h.balance hx

theorem changes (h : p.Upholds Good) (hchanges : Changes p x y) (hx : Good x) : Good y := by
  induction hchanges with
  | refl => exact hx
  | tail _ hchange ih => exact h.change hchange ih

theorem createWorkers (h : p.Upholds Good) (n : Nat) (hgood : Good (c, s)) :
    Good (Core.createWorkers p n c s) := by
  induction n generalizing c s with
  | zero => exact hgood
  | succ n ih => exact ih (h.create hgood)

/-! ## Starting -/

theorem launch (h : p.Upholds Good) (c : Scheduler) (hgood : Good (c.core, s)) :
    Good ((c.launch p s).2.1.core, (c.launch p s).2.2) := by
  apply related_launch (R := fun x y => Good x → Good y) _ _ _ c s hgood
  · intro x y z hxy hyz hx
    exact hyz (hxy hx)
  · intro c s e he hgood
    rcases he with rfl | rfl
    · exact h.tell trivial hgood
    · exact h.tell trivial hgood
  · intro c s hgood
    exact h.createWorkers p.config.startWorkers hgood

theorem start (h : p.Upholds Good) (c : Scheduler) (hgood : Good (c.core, s)) :
    Good ((c.start p s).2.1.core, (c.start p s).2.2) := by
  unfold Scheduler.start
  split
  · exact hgood
  rcases lockPid_cases p c s with ⟨e, hlock⟩ | hlock
  · rw [hlock]
    exact h.aside (.lock _ s) hgood
  rw [hlock]
  have hlocked : Good (c.locked.core, p.setLockFile (PidLock.renewed p.own c.core.lock) s) :=
    h.core (h.aside (.lock _ s) hgood) rfl
  obtain ⟨s₁, hbound, hopen⟩ := openBus_cases (K := fun s => Good (c.locked.core, s))
    (fun address shared {s} => h.aside (.bind address shared s)) c.locked
    (p.setLockFile (PidLock.renewed p.own c.core.lock) s)
  rcases hopen with ⟨e, hopen⟩ | ⟨bus, reactor, hopen⟩
  · simp only [hopen]
    exact hbound hlocked
  · simp only [hopen]
    exact h.launch _ (h.core (hbound hlocked) rfl)

/-! ## Stopping -/

/-- With no workers left there is nothing to take note of. -/
theorem tellIdle (h : p.Upholds Good) {e : Event} (hnews : Core.IsNews e)
    (hempty : c.workers.size = 0) (hgood : Good (c, s)) : Good (c, (p.bus.raise e s).2) := by
  have htold := h.tell hnews hgood
  unfold Core.raise at htold
  generalize p.bus.raise e s = raised at htold ⊢
  obtain ⟨outcome, s₁⟩ := raised
  cases outcome with
  | error e => exact htold
  | ok events => exact h.core htold (Core.noteAll_of_empty hempty events).symm

theorem endWithin (h : p.Upholds Good) (rounds : Nat) (hgood : Good (c, s)) :
    Good (c.endWithin p rounds s) := by
  have htracked : ∀ uid ∈ c.workers.uids, c.workers.find? uid ≠ none := by
    intro uid huid
    exact Option.isSome_iff_ne_none.mp (Table.contains_iff.mpr huid)
  have hended := h.endAll true htracked hgood
  unfold Core.endWithin
  exact h.clear (h.changes (changes_awaitEnds _ rounds _ _) hended)

theorem closeBus (h : p.Upholds Good) (routing : Routing) (id : SelectorId) (r : Reactor Peer)
    (hgood : Good (c, s)) : Good (c, (Scheduler.closeBus p routing id r s).2) := by
  unfold Scheduler.closeBus
  split
  · exact hgood
  · rename_i selector _ _
    have hclosed := Broker.acts_close p.host { routing with selector, world := s }
    exact h.calls hclosed.calls hgood

theorem unlockPid (h : p.Upholds Good) (hgood : Good (c, s)) :
    Good ((Scheduler.unlockPid p c s).2.1, (Scheduler.unlockPid p c s).2.2) := by
  unfold Scheduler.unlockPid
  split
  · exact hgood
  · exact h.core (h.aside (.lock _ s) hgood) rfl

theorem stop (h : p.Upholds Good) (c : Scheduler) (hgood : Good (c.core, s)) :
    Good ((c.stop p s).2.1.core, (c.stop p s).2.2) := by
  cases hbus : c.core.ipc with
  | none =>
    rw [stop_of_closed hbus]
    exact hgood
  | some bus =>
    obtain ⟨routing, id⟩ := bus
    apply related_stop (R := fun x y => Good x → Good y) hbus _ _ _ _ _ hgood
    · intro x y z hxy hyz hx
      exact hyz (hxy hx)
    · intro hgood
      rw [Core.endWorkers_eq]
      exact h.endWithin _ (h.core hgood rfl)
    · intro core s hempty hgood
      exact h.tellIdle trivial hempty hgood
    · intro core r s hgood
      exact h.closeBus routing id r hgood
    · intro core s hgood
      exact h.unlockPid hgood

/-! ## Calls -/

theorem perform (h : p.Upholds Good) (call : Call) (c : Scheduler) (hgood : Good (c.core, s)) :
    Good ((call.perform p c s).2.1.core, (call.perform p c s).2.2) := by
  cases call with
  | start => exact h.start c hgood
  | tick => exact h.changes (changes_tick c s) hgood
  | send audience number message =>
    exact h.changes (changes_send c audience number message s) hgood
  | takeMessages => exact h.core hgood rfl
  | stop => exact h.stop c hgood

end Premises.Upholds

/-! ## Runs from the beginning -/

/-- A scheduler that was created in the world `s₀`, as calls leave it, in a
world that others change as they may. -/
inductive Lifetime (p : Premises σ) (others : σ → σ → Prop) (s₀ : σ) :
    Scheduler → σ → Prop where
  | created {c : Scheduler} : Scheduler.create p.config = .ok c → Lifetime p others s₀ c s₀
  | called {c : Scheduler} {s : σ} (call : Call) : Lifetime p others s₀ c s →
      Lifetime p others s₀ (call.perform p c s).2.1 (call.perform p c s).2.2
  | meanwhile {c : Scheduler} {s s' : σ} : Lifetime p others s₀ c s → others s s' →
      Lifetime p others s₀ c s'

namespace Lifetime

variable {s₀ s : σ} {c : Scheduler}

theorem validate (h : Lifetime p others s₀ c s) : p.config.validate = .ok () := by
  induction h with
  | created hcreate => exact (create_eq_ok hcreate).1
  | called | meanwhile => assumption

/-- What holds of an empty pool in the world at the beginning, and is kept by
all work and by others, holds all the time. -/
theorem upheld (h : Lifetime p others s₀ c s) (hwork : p.Upholds Good)
    (hothers : ∀ {c : Core} {s s' : σ}, others s s' → Good (c, s) → Good (c, s'))
    (hfirst : Good ({ workers := .empty p.config.maxWorkers }, s₀)) : Good (c.core, s) := by
  induction h with
  | created hcreate =>
    rw [(create_eq_ok hcreate).2]
    exact hfirst
  | called call _ ih => exact hwork.perform call _ ih
  | meanwhile _ hchange ih => exact hothers hchange ih

/-- A turn of the main loop is a tick. -/
theorem turn_snd (p : Premises σ) (c : Scheduler) (s : σ) :
    (c.reactor.turn p.host.onSecond (Core.handler p) (c.core, s)).2 =
      ((c.tick p s).2.1.reactor, (c.tick p s).2.1.core, (c.tick p s).2.2) := by
  unfold Reactor.turn tick
  generalize c.reactor.tick p.host.onSecond (Core.handler p) (c.core, s) = ticked
  obtain ⟨outcome, reactor, core, s'⟩ := ticked
  cases outcome with
  | error e => rfl
  | ok n => rfl

theorem mainLoop (h : Lifetime p others s₀ c s) (turns : Nat) :
    let out := Reactor.mainLoop p.host.onSecond (Core.handler p) turns c.reactor (c.core, s)
    Lifetime p others s₀ ⟨out.2.2.1, out.2.1⟩ out.2.2.2 := by
  induction turns generalizing c s with
  | zero => exact h
  | succ turns ih =>
    have hticked := h.called .tick
    have hturn := turn_snd p c s
    unfold Reactor.mainLoop
    generalize c.reactor.turn p.host.onSecond (Core.handler p) (c.core, s) = turned at hturn ⊢
    obtain ⟨outcome, after⟩ := turned
    obtain rfl : after = _ := hturn
    cases outcome with
    | error e => exact hticked
    | ok goes =>
      cases goes with
      | true => exact ih hticked
      | false => exact hticked

/-- Running a scheduler until it is to stop is a sequence of calls. -/
theorem run (h : Lifetime p others s₀ c s) (turns : Nat) :
    Lifetime p others s₀ (c.run p turns s).2.1 (c.run p turns s).2.2 := by
  have hstarted := h.called .start
  rw [Call.perform] at hstarted
  unfold Scheduler.run
  generalize c.start p s = started at hstarted ⊢
  obtain ⟨outcome, c₁, s₁⟩ := started
  cases outcome with
  | error e => exact hstarted
  | ok _ =>
    have hlooped := hstarted.mainLoop turns
    dsimp only at hlooped ⊢
    generalize Reactor.mainLoop p.host.onSecond (Core.handler p) turns c₁.reactor (c₁.core, s₁) =
      looped at hlooped ⊢
    obtain ⟨ended, reactor, core, s₂⟩ := looped
    have hstopped := hlooped.called .stop
    rw [Call.perform] at hstopped
    dsimp only at hstopped ⊢
    generalize (Scheduler.mk core reactor).stop p s₂ = stopped at hstopped ⊢
    obtain ⟨outcome, c₃, s₃⟩ := stopped
    cases outcome with
    | error e => exact hstopped
    | ok _ => exact hstopped

end Lifetime

end Supervisor.Scheduler
