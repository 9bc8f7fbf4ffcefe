import Supervisor.Proofs.Backend.Fork
import Supervisor.Proofs.Pool.Band
import Supervisor.Proofs.Scheduler.Calls

/-!
# The children of a scheduler and its pool

A scheduler with the forking backend knows its workers twice: the backend has
the processes that it forked and has not seen end, and the pool has the
records of the workers.  An end is reported by the backend and taken note of
by the pool.

* A child is `Untracked` if the pool does not know it.  `Tends` says of a step
  that it leaves no new child untracked, and bounds the growth of the pool.
  `tends_raise` and `tends_createWorkers` are the two steps with an argument;
  a child that is created needs room in the pool (`Core.refusals`).
* `Kept` is the invariant of a run without a stop.
* `untracked_or_left_over`: in such a run the children that the pool does not
  know are those that it did not know at the beginning, and no worker that is
  created is ever refused.
-/

namespace Supervisor.Scheduler

open Backend (Fork ProcessCalls workerOf reported)
open Bus (Routing Peer)
open Lifecycle (Event)
open Pool (Collection)
open Worker (Record)

variable {τ : Type} {p : Premises τ} {calls : ProcessCalls τ}

/-- The premises of a scheduler that forks its workers, and decides as its
configuration says. -/
def Premises.forking (p : Premises τ) (calls : ProcessCalls τ) : Premises (Fork × τ) where
  config := p.config
  host := p.host.onSecond
  bus := Fork.bus calls
  discipline := standardDiscipline p.config
  own := p.own
  probe s := p.probe s.2
  lockFile s := p.lockFile s.2
  setLockFile n s := (s.1, p.setLockFile n s.2)
  stopRequested s := p.stopRequested s.2

namespace Core

/-- The backend has a child that the pool does not know. -/
def Untracked (x : Core × Fork × τ) (uid : WorkerId) : Prop :=
  x.2.1.children.contains uid = true ∧ x.1.workers.find? uid = none

/-- A step leaves no new child untracked, and adds at most `n` workers to the
pool. -/
structure Tends (n : Nat) (x y : Core × Fork × τ) : Prop where
  sound : x.1.workers.Sound → y.1.workers.Sound
  max : y.1.workers.max = x.1.workers.max
  size : y.1.workers.size ≤ x.1.workers.size + n
  untracked : ∀ uid, Untracked y uid → Untracked x uid

namespace Tends

variable {x y z : Core × Fork × τ} {n m : Nat}

/-- A step that leaves the workers and the children alone. -/
theorem of_eq (hworkers : y.1.workers = x.1.workers) (hfork : y.2.1 = x.2.1) : Tends n x y where
  sound h := by rwa [hworkers]
  max := by rw [hworkers]
  size := by
    rw [hworkers]
    exact Nat.le_add_right _ n
  untracked uid h := by rwa [Untracked, hworkers, hfork] at h

theorem trans (h : Tends n x y) (h' : Tends m y z) : Tends (n + m) x z where
  sound := h'.sound ∘ h.sound
  max := h'.max.trans h.max
  size := by
    have hsize := h.size
    have hsize' := h'.size
    omega
  untracked uid := h.untracked uid ∘ h'.untracked uid

end Tends

/-! ## Ends -/

theorem noteAll_cons (c : Core) (e : Event) (events : List Event) :
    c.noteAll (e :: events) = (c.note e).noteAll events :=
  rfl

/-- A worker whose end is not reported stays in the pool. -/
theorem find?_noteAll {events : List Event} {uid : WorkerId} (h : reported uid events = [])
    (c : Core) : (c.noteAll events).workers.find? uid = c.workers.find? uid := by
  induction events generalizing c with
  | nil => rfl
  | cons e events ih =>
    rw [noteAll_cons]
    cases e with
    | workerTerminated uid' code =>
      by_cases huid : uid' = uid
      · subst huid
        rw [Backend.reported_cons_self] at h
        cases h
      · rw [Backend.reported_cons_of_ne huid] at h
        rw [ih h]
        show (c.workers.remove uid').find? uid = _
        rw [Collection.find?_remove, if_neg (Ne.symm huid)]
    | _ => exact ih h _

/-- Taking note of events takes workers out of the pool, and adds none. -/
theorem noteAll_workers (events : List Event) (c : Core) :
    (c.workers.Sound → (c.noteAll events).workers.Sound) ∧
      (c.noteAll events).workers.max = c.workers.max ∧
      (c.noteAll events).workers.size ≤ c.workers.size := by
  induction events generalizing c with
  | nil => exact ⟨id, rfl, Nat.le_refl _⟩
  | cons e events ih =>
    rw [noteAll_cons]
    obtain ⟨hsound, hmax, hsize⟩ := ih (c.note e)
    cases e with
    | workerTerminated uid code =>
      have herase := Table.size_erase_le c.workers.workers uid
      exact ⟨fun h => hsound (h.remove uid), hmax, Nat.le_trans hsize herase⟩
    | _ => exact ⟨hsound, hmax, hsize⟩

/-- Raising an event that creates nobody: a child that is gone is taken out of
the pool, and a child that is not is kept there. -/
theorem tends_raise (p : Premises τ) (calls : ProcessCalls τ) {e : Event}
    (he : ∀ settings, e ≠ .workerCreate settings) (c : Core) (s : Fork × τ) :
    Tends 0 (c, s) (c.raise (p.forking calls) e s).2 := by
  obtain ⟨f, t⟩ := s
  have hstep := Fork.step_react calls e f t
  have hraise := Fork.raise_bus_cases calls e (f, t)
  unfold raise
  rw [show (p.forking calls).bus = Fork.bus calls from rfl]
  generalize Fork.react calls e (f, t) = reacted at hstep hraise
  obtain ⟨r, f', t'⟩ := reacted
  rcases hraise with ⟨error, hraise⟩ | hraise
  · rw [hraise]
    refine ⟨id, rfl, Nat.le_refl _, fun uid huid => ?_⟩
    exact ⟨(hstep.of_contains he huid.1).1, huid.2⟩
  · rw [hraise]
    obtain ⟨hsound, hmax, hsize⟩ := noteAll_workers r.emitted c
    refine ⟨hsound, hmax, hsize, fun uid huid => ?_⟩
    obtain ⟨hchild, hreported⟩ := hstep.of_contains he huid.1
    have hfind := huid.2
    rw [find?_noteAll hreported] at hfind
    exact ⟨hchild, hfind⟩

theorem tends_stopWorker (uid : WorkerId) (hard : Bool) (c : Core) (s : Fork × τ) :
    Tends 0 (c, s) (c.stopWorker (p.forking calls) uid hard s) := by
  rw [stopWorker_eq]
  refine Tends.trans ?_ (tends_raise p calls (e := .workerTerminate uid hard) (by simp) _ s)
  refine ⟨fun h => h.markTerminated uid _, rfl, ?_, fun uid' huid => ?_⟩
  · exact Nat.le_of_eq (Collection.size_markTerminated _ _ _)
  · obtain ⟨hchild, hfind⟩ := huid
    rw [Collection.find?_markTerminated] at hfind
    split at hfind
    · exact ⟨hchild, Option.map_eq_none_iff.mp hfind⟩
    · exact ⟨hchild, hfind⟩

theorem tends_stopWorkers (hard : Bool) (uids : List WorkerId) (c : Core) (s : Fork × τ) :
    Tends 0 (c, s) (stopWorkers (p.forking calls) hard uids c s) := by
  induction uids generalizing c s with
  | nil => exact .of_eq rfl rfl
  | cons uid uids ih => exact (tends_stopWorker uid hard c s).trans (ih _ _)

/-! ## Creations -/

/-- The error with which the pool refuses a worker that is created now, if it
does. -/
def refusal? {σ : Type} (p : Premises σ) (c : Core) (s : σ) : Option Error :=
  match c.ipc with
  | none => none
  | some (routing, _) =>
    match p.bus.startWorker (settings p.config routing) s with
    | (none, _) => none
    | (some uid, s) =>
      match c.workers.insert
          (.create p.own.toUInt32 uid p.config.service (p.host.present s)) with
      | .ok _ => none
      | .error e => some e

/-- The errors with which the pool refuses workers when so many are created. -/
def refusals {σ : Type} (p : Premises σ) : Nat → Core → σ → List Error
  | 0, _, _ => []
  | n + 1, c, s =>
    (c.refusal? p s).toList ++ refusals p n (c.createWorker p s).1 (c.createWorker p s).2

/-- With room in the pool a child that is created is tracked. -/
theorem tends_createWorker (p : Premises τ) (calls : ProcessCalls τ) (c : Core) (s : Fork × τ)
    (hroom : c.workers.size < c.workers.max) :
    Tends 1 (c, s) (c.createWorker (p.forking calls) s) ∧
      c.refusal? (p.forking calls) s = none := by
  obtain ⟨f, t⟩ := s
  unfold createWorker refusal?
  cases c.ipc with
  | none => exact ⟨.of_eq rfl rfl, rfl⟩
  | some bus =>
    dsimp only
    rw [show (p.forking calls).bus = Fork.bus calls from rfl, Fork.startWorker_bus]
    generalize calls.fork _ t = forked
    obtain ⟨outcome, t'⟩ := forked
    cases outcome with
    | error failure => exact ⟨.of_eq rfl rfl, rfl⟩
    | ok pid =>
      dsimp only
      rw [Collection.insert_of_room hroom]
      refine ⟨⟨fun h => h.put_of_room hroom, rfl, ?_, fun uid huid => ?_⟩, rfl⟩
      · have herase := Table.size_erase_le c.workers.workers (workerOf pid)
        have hinsert := Table.size_insert c.workers.workers (workerOf pid)
        exact Nat.le_trans (Nat.le_of_eq (hinsert _)) (Nat.succ_le_succ herase)
      · obtain ⟨hchild, hfind⟩ := huid
        rw [Collection.find?_put] at hfind
        split at hfind
        · cases hfind
        · rename_i hne
          exact ⟨((Table.contains_insert _ _ _ _).mp hchild).resolve_left hne, hfind⟩

theorem tends_createWorkers (p : Premises τ) (calls : ProcessCalls τ) (n : Nat) (c : Core)
    (s : Fork × τ) (hroom : c.workers.size + n ≤ c.workers.max) :
    Tends n (c, s) (createWorkers (p.forking calls) n c s) ∧
      refusals (p.forking calls) n c s = [] := by
  induction n generalizing c s with
  | zero => exact ⟨.of_eq rfl rfl, rfl⟩
  | succ n ih =>
    obtain ⟨hone, hrefusal⟩ := tends_createWorker p calls c s (by omega)
    have hsize := hone.size
    have hmax := hone.max
    dsimp only at hsize hmax
    obtain ⟨hrest, hrefusals⟩ := ih (c.createWorker (p.forking calls) s).1
      (c.createWorker (p.forking calls) s).2 (by omega)
    have hboth := hone.trans hrest
    rw [Nat.add_comm] at hboth
    refine ⟨hboth, ?_⟩
    rw [refusals, hrefusal, hrefusals]
    rfl

/-! ## Work -/

/-- What is kept of a run that began at `x₀`. -/
structure Kept (config : Config) (x₀ x : Core × Fork × τ) : Prop where
  sound : x.1.workers.Sound
  max : x.1.workers.max = config.maxWorkers
  untracked : ∀ uid, Untracked x uid → Untracked x₀ uid

theorem Kept.tends {config : Config} {x₀ x y : Core × Fork × τ} {n : Nat}
    (h : Kept config x₀ x) (hxy : Tends n x y) : Kept config x₀ y where
  sound := hxy.sound h.sound
  max := hxy.max.trans h.max
  untracked uid := h.untracked uid ∘ hxy.untracked uid

/-- Every child is in the pool or was left over. -/
theorem Kept.size_children_le {config : Config} {x₀ x : Core × Fork × τ}
    (h : Kept config x₀ x) :
    x.2.1.children.size ≤ config.maxWorkers + x₀.2.1.children.size := by
  have hsub : x.2.1.children.keys ⊆ x.1.workers.uids ++ x₀.2.1.children.keys := by
    intro uid huid
    rw [List.mem_append]
    cases hfind : x.1.workers.find? uid with
    | some r =>
      refine Or.inl (Table.contains_iff.mp ?_)
      exact Option.isSome_iff_exists.mpr ⟨r, hfind⟩
    | none =>
      have hleft := h.untracked uid ⟨Table.contains_iff.mpr huid, hfind⟩
      exact Or.inr (Table.contains_iff.mp hleft.1)
  have hlength := (List.subperm_of_subset (Table.nodup_keys _) hsub).length_le
  have hbounded := h.sound.bounded
  rw [h.max] at hbounded
  rw [List.length_append] at hlength
  simp only [Table.keys, Collection.uids, List.length_map] at hlength
  exact Nat.le_trans hlength (Nat.add_le_add_right hbounded _)

end Core

/-- A valid configuration leaves room for the first workers, and its bounds on
idle workers are in order. -/
theorem le_of_validate {config : Config} (h : config.validate = .ok ()) :
    config.startWorkers ≤ config.maxWorkers ∧ config.minSpare ≤ config.maxSpare := by
  unfold Config.validate at h
  split at h
  · cases h
  split at h
  · cases h
  split at h
  · cases h
  rename_i hstart
  split at h
  · cases h
  rename_i hspare
  exact ⟨Nat.le_of_not_lt hstart, Nat.le_of_not_lt hspare⟩

namespace Core

variable {x₀ x y : Core × Fork × τ} {c : Core} {s : Fork × τ}

/-- The configured policy asks for no more workers than there is room for. -/
theorem Kept.balance (hvalid : p.config.validate = .ok ()) (h : Kept p.config x₀ (c, s)) :
    Kept p.config x₀ (c.balance (p.forking calls) s) ∧
      refusals (p.forking calls)
        (p.config.policy.decide c.workers (p.host.present s.2)).create c s = [] := by
  have hroom : c.workers.size +
      (p.config.policy.decide c.workers (p.host.present s.2)).create ≤ c.workers.max := by
    have hbounded := h.sound.bounded
    have hmax := h.max
    dsimp only at hbounded hmax
    rw [hmax] at hbounded ⊢
    exact Pool.Policy.size_add_create_le _ (le_of_validate hvalid).2 hbounded
  obtain ⟨hcreated, hrefusals⟩ := tends_createWorkers p calls _ c s hroom
  refine ⟨?_, hrefusals⟩
  exact h.tends (hcreated.trans (tends_stopWorkers false _ _ _))

theorem Change.kept (hvalid : p.config.validate = .ok ()) (h : Change (p.forking calls) x y)
    (hx : Kept p.config x₀ x) : Kept p.config x₀ y := by
  cases h with
  | called hcall => exact hx.tends (.of_eq (n := 0) rfl hcall.fst_onSecond)
  | slept | routed | received | asked => exact hx.tends (.of_eq (n := 0) rfl rfl)
  | reported s hupdate =>
    refine hx.tends (n := 0) ⟨fun h => h.update hupdate, Collection.max_update hupdate, ?_, ?_⟩
    · exact Nat.le_of_eq (Collection.size_update hupdate)
    · intro uid huid
      refine ⟨huid.1, ?_⟩
      have hfind := huid.2
      rcases Collection.update_eq_ok hupdate with rfl | ⟨r, _, _, rfl⟩
      · exact hfind
      · rw [Collection.find?_put] at hfind
        split at hfind
        · cases hfind
        · exact hfind
  | @told c e s hnews =>
    have he : ∀ settings, e ≠ .workerCreate settings := by
      rintro settings rfl
      exact hnews
    exact hx.tends (tends_raise p calls he c s)
  | balanced s _ => exact (hx.balance hvalid).1

theorem Changes.kept (hvalid : p.config.validate = .ok ()) (h : Changes (p.forking calls) x y)
    (hx : Kept p.config x₀ x) : Kept p.config x₀ y := by
  induction h with
  | refl => exact hx
  | tail _ hchange ih => exact hchange.kept hvalid ih

end Core

/-! ## Where workers are created -/

section

variable {σ : Type}

/-- Where a start creates the first workers, if it gets so far. -/
def launching? (p : Premises σ) (c : Scheduler) (s : σ) : Option (Core × σ) :=
  if c.core.ipc.isSome then none
  else
    match c.lockPid p s with
    | (.error _, _, _) => none
    | (.ok (), c, s) =>
      match c.openBus p s with
      | (.error _, _, _) => none
      | (.ok (), c, s) =>
        match c.core.raise p .kernelStart s with
        | (.error _, _, _) => none
        | (.ok (), core, s) =>
          match core.raise p .schedulerStart s with
          | (.error _, _, _) => none
          | (.ok (), core, s) => some (core, s)

/-- Where a turn balances the pool, if it gets so far. -/
def balancing? (p : Premises σ) (c : Scheduler) (s : σ) : Option (Core × σ) :=
  match c.reactor.tick p.host.onSecond (Core.handler p) (c.core, s) with
  | (.error _, _, _, _) => none
  | (.ok _, reactor, core, s) =>
    match Core.settle p reactor core s with
    | (.error _, _, _, _) => none
    | (.ok (), _, core, s) => if core.terminating then none else some (core, s)

/-- The errors with which the pool refuses workers that are created during a
call. -/
def Call.refusals (p : Premises σ) : Call → Scheduler → σ → List Error
  | .start, c, s =>
    match c.launching? p s with
    | none => []
    | some (core, s) => core.refusals p p.config.startWorkers s
  | .tick, c, s =>
    match c.balancing? p s with
    | none => []
    | some (core, s) =>
      let (d, s) := p.discipline core.workers (p.host.present s) s
      core.refusals p d.create s
  | _, _, _ => []

variable {p : Premises σ} {c : Scheduler} {s s' : σ} {core : Core}

theorem start_of_launching (h : c.launching? p s = some (core, s')) :
    (c.start p s).1 = .ok () ∧
      ((c.start p s).2.1.core, (c.start p s).2.2) =
        core.createWorkers p p.config.startWorkers s' := by
  unfold launching? at h
  unfold start launch
  cases hbus : c.core.ipc.isSome with
  | true =>
    rw [hbus] at h
    cases h
  | false =>
    rw [hbus] at h
    simp only [Bool.false_eq_true, if_false] at h ⊢
    generalize c.lockPid p s = locked at h ⊢
    obtain ⟨_ | _, c, s⟩ := locked
    · cases h
    dsimp only at h ⊢
    generalize c.openBus p s = opened at h ⊢
    obtain ⟨_ | _, c, s⟩ := opened
    · cases h
    dsimp only at h ⊢
    generalize c.core.raise p .kernelStart s = raised at h ⊢
    obtain ⟨_ | _, core, s⟩ := raised
    · cases h
    dsimp only at h ⊢
    generalize core.raise p .schedulerStart s = raised at h ⊢
    obtain ⟨_ | _, core, s⟩ := raised
    · cases h
    obtain ⟨rfl, rfl⟩ := Prod.mk.inj (Option.some.inj h)
    exact ⟨rfl, rfl⟩

/-- Where the pool is balanced, all that went before in the turn is a sequence
of changes, and balancing it ends the turn. -/
theorem tick_of_balancing (h : c.balancing? p s = some (core, s')) :
    Core.Changes p (c.core, s) (core, s') ∧ (c.tick p s).1 = .ok () ∧
      ((c.tick p s).2.1.core, (c.tick p s).2.2) = core.balance p s' := by
  have htick := Poll.Reactor.steps_tick (Core.handler_takes p) c.reactor (c.core, s)
  unfold balancing? at h
  unfold tick
  generalize c.reactor.tick p.host.onSecond (Core.handler p) (c.core, s) = ticked at h htick ⊢
  obtain ⟨outcome, reactor, core₁, s₁⟩ := ticked
  cases outcome with
  | error e => cases h
  | ok n =>
    have hsettle := Core.changes_settle (p := p) reactor core₁ s₁
    dsimp only at h ⊢
    rw [Core.onTick_eq]
    generalize Core.settle p reactor core₁ s₁ = settled at h hsettle ⊢
    obtain ⟨outcome, reactor', core₂, s₂⟩ := settled
    cases outcome with
    | error e => cases h
    | ok _ =>
      dsimp only at h ⊢
      split at h
      · cases h
      · rename_i hgoes
        obtain ⟨rfl, rfl⟩ := Prod.mk.inj (Option.some.inj h)
        rw [if_neg hgoes]
        exact ⟨htick.trans hsettle, rfl, rfl⟩

end

/-! ## Runs -/

open Scheduler.Core (Kept Tends Untracked)

variable {x₀ : Core × Fork × τ} {c : Scheduler} {s : Fork × τ}

/-- A start creates no worker, or it does so at the end, with the pool and the
children as they were but for those that are gone. -/
theorem launching_cases (p : Premises τ) (calls : ProcessCalls τ) (c : Scheduler)
    (s : Fork × τ) :
    (c.launching? (p.forking calls) s = none ∧
        Tends 0 (c.core, s)
          ((c.start (p.forking calls) s).2.1.core, (c.start (p.forking calls) s).2.2)) ∨
      ∃ core s', c.launching? (p.forking calls) s = some (core, s') ∧ c.core.ipc = none ∧
        Tends 0 (c.core, s) (core, s') := by
  unfold launching? start launch
  cases hbus : c.core.ipc with
  | some bus => exact Or.inl ⟨rfl, .of_eq rfl rfl⟩
  | none =>
    simp only [Option.isSome_none, Bool.false_eq_true, if_false]
    rcases lockPid_cases (p.forking calls) c s with ⟨e, hlock⟩ | hlock
    · rw [hlock]
      exact Or.inl ⟨rfl, .of_eq rfl rfl⟩
    rw [hlock]
    dsimp only
    obtain ⟨s₁, hfork, hopen⟩ := openBus_cases (p := p.forking calls) (K := fun s' => s'.1 = s.1)
      (fun _ _ {_} h => h) c.locked
      ((p.forking calls).setLockFile (PidLock.renewed (p.forking calls).own c.core.lock) s)
    have hbound : Tends 0 (c.core, s) (c.locked.core, s₁) := .of_eq rfl (hfork rfl)
    rcases hopen with ⟨e, hopen⟩ | ⟨bus, reactor, hopen⟩
    · rw [hopen]
      exact Or.inl ⟨rfl, hbound⟩
    rw [hopen]
    dsimp only
    have hserving : Tends 0 (c.core, s) ({ c.locked.core with ipc := some bus }, s₁) :=
      .of_eq rfl (hfork rfl)
    have hkernel := hserving.trans
      (Core.tends_raise p calls (e := .kernelStart) (by simp) _ s₁)
    generalize Core.raise (p.forking calls) _ .kernelStart s₁ = raised at hkernel ⊢
    obtain ⟨_ | _, core, s₂⟩ := raised
    · exact Or.inl ⟨rfl, hkernel⟩
    have hscheduler := hkernel.trans
      (Core.tends_raise p calls (e := .schedulerStart) (by simp) core s₂)
    dsimp only
    generalize core.raise (p.forking calls) .schedulerStart s₂ = raised at hscheduler ⊢
    obtain ⟨_ | _, core, s₃⟩ := raised
    · exact Or.inl ⟨rfl, hscheduler⟩
    · exact Or.inr ⟨core, s₃, rfl, trivial, hscheduler⟩

/-- A start on an empty pool leaves room for the first workers. -/
theorem kept_start (hvalid : p.config.validate = .ok ()) (h : Kept p.config x₀ (c.core, s))
    (hempty : c.core.ipc = none → c.core.workers.size = 0) :
    Kept p.config x₀
        ((c.start (p.forking calls) s).2.1.core, (c.start (p.forking calls) s).2.2) ∧
      Call.refusals (p.forking calls) .start c s = [] := by
  rcases launching_cases p calls c s with
    ⟨hnone, htends⟩ | ⟨core, s', hsome, hclosed, htends⟩
  · refine ⟨h.tends htends, ?_⟩
    simp only [Call.refusals, hnone]
  · have hroom : core.workers.size + p.config.startWorkers ≤ core.workers.max := by
      have hsize := htends.size
      have hmax := (h.tends htends).max
      have hfirst := (le_of_validate hvalid).1
      dsimp only at hsize hmax
      rw [hempty hclosed] at hsize
      omega
    obtain ⟨hcreated, hrefusals⟩ :=
      Core.tends_createWorkers p calls _ core s' hroom
    rw [(start_of_launching hsome).2]
    refine ⟨(h.tends htends).tends hcreated, ?_⟩
    simp only [Call.refusals, hsome]
    exact hrefusals

theorem kept_tick (hvalid : p.config.validate = .ok ()) (h : Kept p.config x₀ (c.core, s)) :
    Kept p.config x₀
        ((c.tick (p.forking calls) s).2.1.core, (c.tick (p.forking calls) s).2.2) ∧
      Call.refusals (p.forking calls) .tick c s = [] := by
  refine ⟨Core.Changes.kept hvalid (changes_tick c s) h, ?_⟩
  unfold Call.refusals
  dsimp only
  cases hbalancing : c.balancing? (p.forking calls) s with
  | none => rfl
  | some reached =>
    obtain ⟨core, s'⟩ := reached
    have hbefore := Core.Changes.kept hvalid (tick_of_balancing hbalancing).1 h
    exact (hbefore.balance hvalid).2

theorem kept_perform (hvalid : p.config.validate = .ok ()) (h : Kept p.config x₀ (c.core, s))
    (hempty : c.core.ipc = none → c.core.workers.size = 0) {call : Call} (hstop : call ≠ .stop) :
    Kept p.config x₀
        ((call.perform (p.forking calls) c s).2.1.core,
          (call.perform (p.forking calls) c s).2.2) ∧
      call.refusals (p.forking calls) c s = [] := by
  cases call with
  | start => exact kept_start hvalid h hempty
  | tick => exact kept_tick hvalid h
  | send audience number message =>
    exact ⟨Core.Changes.kept hvalid (changes_send c audience number message s) h, rfl⟩
  | takeMessages => exact ⟨h.tends (.of_eq (n := 0) rfl rfl), rfl⟩
  | stop => exact absurd rfl hstop

/-- A run without a stop keeps the pool and the children together. -/
theorem Onward.kept {c₀ : Scheduler} {s₀ : Fork × τ} (hvalid : p.config.validate = .ok ())
    (h : Onward (p.forking calls) (fun s s' => s'.1 = s.1) c₀ s₀ c s)
    (hkept : Kept p.config x₀ (c₀.core, s₀))
    (hempty : c₀.core.ipc = none → c₀.core.workers.size = 0) :
    Kept p.config x₀ (c.core, s) ∧ (c.core.ipc = none → c.core.workers.size = 0) := by
  induction h with
  | refl => exact ⟨hkept, hempty⟩
  | called call _ hstop ih => exact ⟨(kept_perform hvalid ih.1 ih.2 hstop).1, Call.empty hstop ih.2⟩
  | meanwhile _ hchange ih => exact ⟨ih.1.tends (.of_eq (n := 0) rfl hchange), ih.2⟩

/-- From a scheduler with an empty pool on, up to a stop: the children that
the pool does not know are those that it did not know at any time before.  So
there are no more than the pool may hold beside those that were left over at
the beginning, and whatever is called next, a worker that is created is never
refused. -/
theorem untracked_or_left_over {c₀ c₁ : Scheduler} {s₀ s₁ : Fork × τ}
    (hvalid : p.config.validate = .ok ()) (hempty : c₀.core.workers = .empty p.config.maxWorkers)
    (hbefore : Onward (p.forking calls) (fun s s' => s'.1 = s.1) c₀ s₀ c₁ s₁)
    (hafter : Onward (p.forking calls) (fun s s' => s'.1 = s.1) c₁ s₁ c s) :
    (∀ uid, Untracked (c.core, s) uid → Untracked (c₁.core, s₁) uid) ∧
      s.1.children.size ≤ p.config.maxWorkers + s₀.1.children.size ∧
      ∀ call : Call, call ≠ .stop → call.refusals (p.forking calls) c s = [] := by
  have hstart : Kept p.config (c₀.core, s₀) (c₀.core, s₀) := by
    refine ⟨?_, ?_, fun _ => id⟩
    · rw [hempty]
      exact Collection.sound_empty _
    · rw [hempty]
      rfl
  have hnobody : c₀.core.ipc = none → c₀.core.workers.size = 0 := by
    intro _
    rw [hempty]
    rfl
  obtain ⟨hmiddle, hmiddleEmpty⟩ := hbefore.kept hvalid hstart hnobody
  have hrebased : Kept p.config (c₁.core, s₁) (c₁.core, s₁) :=
    ⟨hmiddle.sound, hmiddle.max, fun _ => id⟩
  obtain ⟨hsince, _⟩ := hafter.kept hvalid hrebased hmiddleEmpty
  obtain ⟨hall, hallEmpty⟩ := hafter.kept hvalid hmiddle hmiddleEmpty
  exact ⟨hsince.untracked, hall.size_children_le,
    fun call hstop => (kept_perform hvalid hall hallEmpty hstop).2⟩

/-- A pool for one worker, whose processes nobody ever sees end.  The world has
the pid file and the pid of the next process. -/
def lingering : Premises (Node × Int32 × Sim.World) where
  config :=
    { Config.standard ⟨"/tmp", "herd"⟩ with
      startWorkers := 1, maxWorkers := 1, minSpare := 1, maxSpare := 1, shutdownMillis := 0 }
  host := Sim.World.host.onSecond.onSecond
  bus := .empty
  discipline _ _ s := (⟨0, []⟩, s)
  own := 99
  probe _ _ := .absent
  lockFile s := s.1
  setLockFile n s := (n, s.2)
  stopRequested _ := false

def immortal : ProcessCalls (Node × Int32 × Sim.World) where
  fork _ s := (.ok s.2.1, s.1, s.2.1 + 1, s.2.2)
  kill _ _ s := (.sent, s)
  reap s := .nobody s
  parent _ := 1

/-- Running it means running it on the bus with the chains written out. -/
theorem forking_lingering :
    lingering.forking immortal =
      { lingering.forking immortal with
        bus := ⟨[Fork.react immortal], fun kind =>
          if kind ∈ Lifecycle.Backend.subscriptions.map Prod.fst then [⟨0, 0⟩] else []⟩ } := by
  rw [← Fork.bus_eq]
  rfl

/-- The scheduler of that pool before it is started. -/
def lone : Scheduler :=
  ⟨{ workers := .empty 1 }, .empty lingering.config.tickInterval⟩

/-- In the first run of the pool its one child is tracked. -/
theorem untracked_or_left_over_of_start :
    let p := lingering.forking immortal
    let s : Fork × Node × Int32 × Sim.World := (.empty, .nothing, 100, {})
    let running := (lone.start p s).2
    running.2.1.children.keys = [workerOf 100] ∧
      (∀ uid, ¬ Untracked (running.1.core, running.2) uid) ∧
        ∀ call : Call, call ≠ .stop → call.refusals p running.1 running.2 = [] := by
  intro p s running
  have hchildren : running.2.1.children.keys = [workerOf 100] := by
    show (lone.start (lingering.forking immortal) s).2.2.1.children.keys = _
    rw [forking_lingering]
    rfl
  have hbefore : Onward p (fun s s' => s'.1 = s.1) lone s lone s := .refl
  have hafter := hbefore.called .start (by simp)
  rw [Call.perform] at hafter
  obtain ⟨huntracked, _, hrefusals⟩ := untracked_or_left_over rfl rfl hbefore hafter
  refine ⟨hchildren, fun uid huid => ?_, hrefusals⟩
  have hstart := huntracked uid huid
  cases hstart.1

/-- The stop gives up on a child that does not end, and the next start takes
its place in the pool. -/
theorem given_up_child_untracked :
    let p := lingering.forking immortal
    let started := (lone.start p (.empty, .nothing, 100, {})).2
    let stopped := started.1.stop p started.2
    let again := stopped.2.1.start p stopped.2.2
    create p.config = .ok lone ∧ stopped.1 = .ok () ∧
      stopped.2.1.core.workers = .empty p.config.maxWorkers ∧ again.1 = .ok () ∧
      Untracked (again.2.1.core, again.2.2) (workerOf 100) ∧
      again.2.2.1.children.keys = [workerOf 100, workerOf 101] := by
  intro p
  rw [show p = _ from forking_lingering]
  exact ⟨rfl, rfl, rfl, rfl, ⟨rfl, rfl⟩, rfl⟩

end Supervisor.Scheduler
