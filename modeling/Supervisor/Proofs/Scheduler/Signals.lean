import Supervisor.Proofs.Backend.Dealings
import Supervisor.Proofs.Scheduler.Children
import Supervisor.Proofs.Scheduler.Invariants

/-!
# Whom a scheduler signals

The forking backend signals whatever process it is asked to signal.  That it
signals no others than children of its own that have not been reaped is up to
the scheduler, which must not keep a worker in the pool after its end.

* `Answers` is the invariant: children are living, workers in the pool are
  children or lost, and so is whoever was signalled at the time.
* `signals_reach_children_iff`: whoever is signalled was forked, and is living
  unless it was lost.
* `lost_child_signalled` is a run in which a scheduler signals a process that
  it has reaped.  It is the case of 1025 workers of `crowd_signalled`.
-/

namespace Supervisor.Scheduler

open Backend (Dealing Fork Lawful Living Lost ProcessCalls Reaping Signal processOf workerOf
  reported)
open Lifecycle (Event)
open Pool (Collection)

variable {τ : Type} {p : Premises τ} {calls : ProcessCalls τ}

/-- The same premises in a world with something beside it that nobody looks
at. -/
def Premises.onSecond {ρ : Type} (p : Premises τ) : Premises (ρ × τ) where
  config := p.config
  host := p.host.onSecond
  bus := ⟨p.bus.listeners.map Lifecycle.Listener.onSecond, p.bus.chains⟩
  discipline c now s :=
    let (d, t) := p.discipline c now s.2
    (d, s.1, t)
  own := p.own
  probe s := p.probe s.2
  lockFile s := p.lockFile s.2
  setLockFile n s := (s.1, p.setLockFile n s.2)
  stopRequested s := p.stopRequested s.2

/-- The premises of a scheduler that forks its workers and is watched. -/
abbrev Premises.watching (p : Premises τ) (calls : ProcessCalls τ) :
    Premises (Fork × List Dealing × τ) :=
  p.onSecond.forking calls.watched

/-- Past the backend nobody touches the children or the log. -/
theorem Premises.Aside.spares {s s' : Fork × List Dealing × τ}
    (h : (p.watching calls).Aside s s') : s'.1 = s.1 ∧ s'.2.1 = s.2.1 := by
  cases h with
  | call hcall =>
    cases hcall with
    | poll | consume | write | accept | close | roll => exact ⟨rfl, rfl⟩
  | sleep | bind | lock => exact ⟨rfl, rfl⟩

namespace Core

/-- What is true of a scheduler that is watched from the beginning. -/
structure Answers (x : Core × Fork × List Dealing × τ) : Prop where
  sound : x.1.workers.Sound
  children : ∀ {uid}, x.2.1.children.contains uid = true →
    ∃ pid, uid = workerOf pid ∧ Living pid x.2.2.1
  tracked : ∀ {uid}, x.1.workers.find? uid ≠ none →
    x.2.1.children.contains uid = true ∨ ∃ pid, uid = workerOf pid ∧ Lost pid x.2.2.1
  lawful : Lawful x.2.2.1

variable {c c' : Core} {f f' : Fork} {log : List Dealing} {t t' : τ} {e : Event}

/-- A worker may be signalled: its process is living or lost. -/
def Answerable (uid : WorkerId) (log : List Dealing) : Prop :=
  ∃ pid, uid = workerOf pid ∧ (Living pid log ∨ Lost pid log)

/-- Whoever is in the pool may be signalled. -/
theorem Answers.answerable {x : Core × Fork × List Dealing × τ} (h : Answers x) {uid : WorkerId}
    (huid : x.1.workers.find? uid ≠ none) : Answerable uid x.2.2.1 := by
  rcases h.tracked huid with hchild | ⟨pid, hpid, hlost⟩
  · obtain ⟨pid, hpid, hliving⟩ := h.children hchild
    exact ⟨pid, hpid, .inl hliving⟩
  · exact ⟨pid, hpid, .inr hlost⟩

/-- The pool may change as long as it tracks nobody new. -/
theorem Answers.pool (h : Answers (c, f, log, t)) (hsound : c'.workers.Sound)
    (htracked : ∀ uid, c.workers.find? uid = none → c'.workers.find? uid = none) :
    Answers (c', f, log, t') :=
  ⟨hsound, h.children, fun huid => h.tracked fun hnone => huid (htracked _ hnone), h.lawful⟩

/-- The rest of the world does not matter. -/
theorem Answers.aside {s s' : Fork × List Dealing × τ} (h : Answers (c, s))
    (hspared : s'.1 = s.1 ∧ s'.2.1 = s.2.1) : Answers (c, s') := by
  obtain ⟨f, log, t⟩ := s
  obtain ⟨f', log', t'⟩ := s'
  obtain ⟨rfl, rfl⟩ := hspared
  exact ⟨h.sound, h.children, h.tracked, h.lawful⟩

/-! ## Ends -/

/-- A raise that does not fail is one reaction, and is taken note of if the bus
has room for the follow-ups. -/
theorem raise_watched (p : Premises τ) {r : Lifecycle.Reaction}
    (hreact : Fork.react calls e (f, t) = (r, f', t')) (hfailure : r.failure = none) :
    (c.raise (p.watching calls) e (f, log, t)).2 =
      (if r.emitted.length ≤ 1024 then c.noteAll r.emitted else c, f',
        log ++ Fork.dealings calls e t, t') := by
  unfold raise
  rw [show (p.watching calls).bus = Fork.bus calls.watched from rfl, Fork.raise_bus,
    Fork.react_watched, hreact]
  dsimp only
  rw [hfailure]
  dsimp only
  by_cases hroom : r.emitted.length ≤ 1024
  · rw [if_pos hroom, if_pos (show r.emitted.length ≤ Lifecycle.Bus.cascadeLimit from hroom)]
  · rw [if_neg hroom, if_neg (show ¬ r.emitted.length ≤ Lifecycle.Bus.cascadeLimit from hroom)]

/-- What a scheduler raises makes the log longer. -/
theorem log_raise (p : Premises τ) (calls : ProcessCalls τ) (c : Core) (e : Event) (f : Fork)
    (log : List Dealing) (t : τ) :
    (c.raise (p.watching calls) e (f, log, t)).2.2.2.1 = log ++ Fork.dealings calls e t := by
  have hraised : ((p.watching calls).bus.raise e (f, log, t)).2 = _ :=
    (Fork.raise_bus_snd calls.watched e (f, log, t)).trans
      (congrArg Prod.snd (Fork.react_watched calls e f log t))
  unfold raise
  generalize (p.watching calls).bus.raise e (f, log, t) = raised at hraised
  obtain ⟨outcome, after⟩ := raised
  obtain rfl : after = _ := hraised
  cases outcome with
  | error | ok => rfl

theorem log_stopWorker (p : Premises τ) (calls : ProcessCalls τ) (uid : WorkerId) (hard : Bool)
    (c : Core) (s : Fork × List Dealing × τ) :
    (c.stopWorker (p.watching calls) uid hard s).2.2.1 =
      s.2.1 ++ [.signalled (processOf uid) (if hard then .kill else .interrupt)] := by
  rw [stopWorker_eq]
  exact log_raise p calls _ _ s.1 s.2.1 s.2.2

theorem log_stopWorkers (p : Premises τ) (calls : ProcessCalls τ) (hard : Bool)
    (uids : List WorkerId) (c : Core) (s : Fork × List Dealing × τ) :
    s.2.1 <+: (stopWorkers (p.watching calls) hard uids c s).2.2.1 := by
  induction uids generalizing c s with
  | nil => exact List.prefix_rfl
  | cons uid uids ih =>
    have hone : s.2.1 <+: (c.stopWorker (p.watching calls) uid hard s).2.2.1 := by
      rw [log_stopWorker]
      exact List.prefix_append _ _
    exact hone.trans (ih _ _)

/-- The first of them is signalled first. -/
theorem log_stopWorkers_cons (p : Premises τ) (calls : ProcessCalls τ) (uid : WorkerId)
    (hard : Bool) (uids : List WorkerId) (c : Core) (s : Fork × List Dealing × τ) :
    s.2.1 ++ [.signalled (processOf uid) (if hard then .kill else .interrupt)] <+:
      (stopWorkers (p.watching calls) hard (uid :: uids) c s).2.2.1 := by
  rw [← log_stopWorker p calls uid hard c s]
  exact log_stopWorkers p calls hard uids _ _

/-- A worker whose end is reported is taken out of the pool. -/
theorem find?_noteAll_of_reported {events : List Event} {uid : WorkerId}
    (h : reported uid events ≠ []) (c : Core) : (c.noteAll events).workers.find? uid = none := by
  induction events generalizing c with
  | nil => exact absurd rfl h
  | cons e events ih =>
    rw [noteAll_cons]
    by_cases hrest : reported uid events = []
    · rw [find?_noteAll hrest]
      cases e with
      | workerTerminated uid' code =>
        by_cases huid : uid' = uid
        · show (c.workers.remove uid').find? uid = none
          rw [Collection.find?_remove, if_pos huid.symm]
        · rw [Backend.reported_cons_of_ne huid] at h
          exact absurd hrest h
      | _ => exact absurd hrest h
    · exact ih hrest _

/-- Whoever is in the pool after a turn was there before, and no end of it was
taken note of. -/
theorem unreported_of_noted {events : List Event} {uid : WorkerId} {c : Core}
    (h : (if events.length ≤ 1024 then c.noteAll events else c).workers.find? uid ≠ none) :
    c.workers.find? uid ≠ none ∧ (events.length ≤ 1024 → reported uid events = []) := by
  split at h
  · by_cases hreported : reported uid events = []
    · rw [find?_noteAll hreported] at h
      exact ⟨h, fun _ => hreported⟩
    · exact absurd (find?_noteAll_of_reported hreported c) h
  · rename_i hroom
    exact ⟨h, fun h => absurd h hroom⟩

/-- A reaction that leaves the children and the pool alone. -/
theorem Answers.quiet (h : Answers (c, f, log, t)) (hchildren : f'.children = f.children) :
    Answers (c, f', log, t') := by
  refine ⟨h.sound, fun huid => ?_, fun huid => ?_, h.lawful⟩
  · rw [hchildren] at huid
    exact h.children huid
  · rw [hchildren]
    exact h.tracked huid

section Reap

variable {r : Lifecycle.Reaction}

/-- A turn takes away the children that are reaped. -/
theorem mem_departed_iff (hreact : Fork.react calls .schedulerLoop (f, t) = (r, f', t'))
    (uid : WorkerId) :
    uid ∈ Fork.departed f f' ↔
      f.children.contains uid = true ∧ ∃ y ∈ (calls.reap t).exits, workerOf y.1 = uid := by
  have hraise : uid ∈ Fork.departed f ((Fork.bus calls).raise .schedulerLoop (f, t)).2.1 ↔ _ :=
    Fork.mem_departed_schedulerLoop
  rwa [Fork.raise_bus_snd, hreact] at hraise

/-- Whoever a turn takes away from the children was a living child, and was
reaped. -/
theorem Answers.of_departed (h : Answers (c, f, log, t))
    (hreact : Fork.react calls .schedulerLoop (f, t) = (r, f', t')) {uid : WorkerId}
    (huid : uid ∈ Fork.departed f f') :
    ∃ pid, uid = workerOf pid ∧ Living pid log ∧ pid ∈ (calls.reap t).exits.map Prod.fst := by
  obtain ⟨hchild, y, hy, hpid⟩ := (mem_departed_iff hreact uid).mp huid
  obtain ⟨pid, rfl, hliving⟩ := h.children hchild
  refine ⟨pid, rfl, hliving, ?_⟩
  rw [← Backend.workerOf_injective hpid]
  exact List.mem_map_of_mem hy

/-- If there is no room for the ends of the children that leave, they are a
crowd. -/
theorem Answers.crowd (h : Answers (c, f, log, t))
    (hreact : Fork.react calls .schedulerLoop (f, t) = (r, f', t'))
    (hroom : ¬ r.emitted.length ≤ 1024) {uid : WorkerId} (huid : uid ∈ Fork.departed f f') :
    Backend.Crowd (calls.reap t).exits log := by
  have hstep := Fork.step_react calls .schedulerLoop f t
  rw [hreact] at hstep
  obtain ⟨_, _, hlength⟩ := hstep.of_departed huid
  refine ⟨(Fork.departed f f').map processOf, ?_, ?_, fun pid hpid => ?_⟩
  · refine List.Nodup.map_on (fun a ha b hb hab => ?_) (f.children.nodup_keys.filter _)
    obtain ⟨q, rfl, _⟩ := h.of_departed hreact ha
    obtain ⟨q', rfl, _⟩ := h.of_departed hreact hb
    rw [Backend.processOf_workerOf, Backend.processOf_workerOf] at hab
    rw [hab]
  · rw [List.length_map]
    split at hlength <;> omega
  · obtain ⟨uid', huid', rfl⟩ := List.mem_map.mp hpid
    obtain ⟨q, rfl, hq⟩ := h.of_departed hreact huid'
    rw [Backend.processOf_workerOf]
    exact hq

/-- When children are reaped, those that ended are taken out of the pool, or
all of them are lost. -/
theorem Answers.reap (h : Answers (c, f, log, t)) :
    Answers (c.raise (p.watching calls) .schedulerLoop (f, log, t)).2 := by
  generalize hreact : Fork.react calls .schedulerLoop (f, t) = reacted
  obtain ⟨r, f', t'⟩ := reacted
  have hstep := Fork.step_react calls .schedulerLoop f t
  rw [hreact] at hstep
  have hfailure : r.failure = none := by
    rw [show r = (Fork.react calls .schedulerLoop (f, t)).1 by rw [hreact]]
    rfl
  rw [raise_watched p hreact hfailure]
  refine ⟨?_, fun {uid} huid => ?_, fun {uid} huid => ?_, h.lawful.concat nofun⟩
  · dsimp only
    split
    · exact (noteAll_workers r.emitted c).1 h.sound
    · exact h.sound
  · obtain ⟨hchild, _⟩ := hstep.of_contains (by simp) huid
    obtain ⟨pid, rfl, hliving⟩ := h.children hchild
    refine ⟨pid, rfl, hliving.concat fun hreaps => ?_⟩
    obtain ⟨y, hy, rfl⟩ := List.mem_map.mp hreaps
    have hgone := (mem_departed_iff hreact (workerOf y.1)).mpr ⟨hchild, y, hy, rfl⟩
    exact (Fork.mem_departed.mp hgone).2 huid
  · dsimp only at huid ⊢
    obtain ⟨hbefore, hunreported⟩ := unreported_of_noted huid
    rcases h.tracked hbefore with hchild | ⟨pid, hpid, hlost⟩
    · rcases hstep.stays_or_ends hchild with hstays | ⟨hgone, hreported⟩
      · exact .inl hstays
      · have hroom : ¬ r.emitted.length ≤ 1024 := fun hroom => hreported (hunreported hroom)
        obtain ⟨pid, hpid, hliving, hexits⟩ := h.of_departed hreact hgone
        exact .inr ⟨pid, hpid, hliving.lost hexits (h.crowd hreact hroom hgone)⟩
    · exact .inr ⟨pid, hpid, hlost.concat nofun⟩

/-- News leave the children alone, unless they make the backend reap. -/
theorem react_of_news (calls : ProcessCalls τ) (hnews : IsNews e) (hloop : e ≠ .schedulerLoop)
    (f : Fork) (t : τ) :
    ∃ f', Fork.react calls e (f, t) = ({}, f', t) ∧ f'.children = f.children ∧
      Fork.dealings calls e t = [] := by
  cases e with
  | workerCreate | workerTerminate => exact absurd hnews id
  | schedulerLoop => exact absurd rfl hloop
  | kernelStart => exact ⟨_, rfl, rfl, rfl⟩
  | schedulerStart | schedulerStop | workerCreated | workerInit | workerLoop | workerExit
  | workerTerminated => exact ⟨_, rfl, rfl, rfl⟩

theorem Answers.tell (h : Answers (c, f, log, t)) (hnews : IsNews e) :
    Answers (c.raise (p.watching calls) e (f, log, t)).2 := by
  by_cases hloop : e = .schedulerLoop
  · rw [hloop]
    exact h.reap
  · obtain ⟨f', hreact, hchildren, hdealings⟩ := react_of_news calls hnews hloop f t
    rw [raise_watched p hreact rfl, hdealings, List.append_nil]
    exact h.quiet hchildren

end Reap

/-! ## Signals -/

theorem Answerable.signalled {uid : WorkerId} (h : Answerable uid log) (pid : Int32)
    (signal : Signal) : Answerable uid (log ++ [.signalled pid signal]) := by
  obtain ⟨q, hq, hliving | hlost⟩ := h
  · exact ⟨q, hq, .inl (hliving.concat id)⟩
  · exact ⟨q, hq, .inr (hlost.concat nofun)⟩

theorem Answers.signalled (h : Answers (c, f, log, t)) {uid : WorkerId}
    (huid : Answerable uid log) (signal : Signal) :
    Answers (c, f, log ++ [.signalled (processOf uid) signal], t) where
  sound := h.sound
  children hchild := by
    obtain ⟨pid, hpid, hliving⟩ := h.children hchild
    exact ⟨pid, hpid, hliving.concat id⟩
  tracked htracked := by
    rcases h.tracked htracked with hchild | ⟨pid, hpid, hlost⟩
    · exact .inl hchild
    · exact .inr ⟨pid, hpid, hlost.concat nofun⟩
  lawful := by
    obtain ⟨pid, rfl, hpid⟩ := huid
    rw [Backend.processOf_workerOf]
    refine h.lawful.concat fun q signal' hlast => ?_
    cases hlast
    exact hpid

/-- A worker is forgotten on both sides. -/
theorem Answers.forget (h : Answers (c, f, log, t)) (uid : WorkerId) :
    Answers ({ c with workers := c.workers.remove uid },
      { f with children := f.children.erase uid }, log, t') where
  sound := h.sound.remove uid
  children hchild := h.children ((Table.contains_erase _ _ _).mp hchild).2
  tracked htracked := by
    dsimp only at htracked ⊢
    rw [Collection.find?_remove] at htracked
    split at htracked
    · exact absurd rfl htracked
    · rename_i hne
      refine (h.tracked htracked).imp_left fun hchild => ?_
      exact (Table.contains_erase _ _ _).mpr ⟨hne, hchild⟩
  lawful := h.lawful

/-- A signal is sent to a worker that may be signalled, and the worker is
forgotten if nobody gets it. -/
theorem Answers.stopWorker (h : Answers (c, f, log, t)) {uid : WorkerId}
    (huid : Answerable uid log) (hard : Bool) :
    Answers (c.stopWorker (p.watching calls) uid hard (f, log, t)) := by
  let now := (p.watching calls).host.present (f, log, t)
  have hmarked : Answers ({ c with workers := c.workers.markTerminated uid now }, f, log, t) :=
    h.pool (h.sound.markTerminated uid now) fun uid' hnone =>
      (Collection.find?_markTerminated_eq_none_iff _ _ _ _).mpr hnone
  have hsignalled := hmarked.signalled huid (if hard then .kill else .interrupt)
  have hstep := Fork.step_react calls (.workerTerminate uid hard) f t
  generalize hreact : Fork.react calls (.workerTerminate uid hard) (f, t) = reacted at hstep
  obtain ⟨r, f', t'⟩ := reacted
  rw [stopWorker_eq]
  cases hstep with
  | vanished hkill =>
    rw [raise_watched p hreact rfl]
    exact hsignalled.forget uid
  | signalled hkill hsome =>
    rw [raise_watched p hreact rfl]
    exact hsignalled.quiet rfl
  | ignored =>
    rw [raise_watched p hreact rfl]
    exact hsignalled.quiet rfl

theorem Answers.stopWorkers {x : Core × Fork × List Dealing × τ} (h : Answers x)
    {uids : List WorkerId} (huids : ∀ uid ∈ uids, Answerable uid x.2.2.1) (hard : Bool) :
    Answers (Core.stopWorkers (p.watching calls) hard uids x.1 x.2) := by
  induction uids generalizing x with
  | nil => exact h
  | cons uid uids ih =>
    rw [List.forall_mem_cons] at huids
    have hone : Answers (x.1.stopWorker (p.watching calls) uid hard x.2) :=
      h.stopWorker huids.1 hard
    have hrest : ∀ uid' ∈ uids,
        Answerable uid' (x.1.stopWorker (p.watching calls) uid hard x.2).2.2.1 := by
      intro uid' huid'
      rw [log_stopWorker]
      exact (huids.2 uid' huid').signalled _ _
    exact ih hone hrest

/-! ## Creations -/

/-- A process that is forked is a child, whatever it was before. -/
theorem Answers.forked (h : Answers (c, f, log, t)) (pid : Int32) :
    Answers (c, { f with children := f.children.insert (workerOf pid) () },
      log ++ [.forked pid], t') where
  sound := h.sound
  children hchild := by
    rcases (Table.contains_insert _ _ _ _).mp hchild with rfl | hchild
    · exact ⟨pid, rfl, Backend.living_of_fork pid log⟩
    · obtain ⟨q, hq, hliving⟩ := h.children hchild
      exact ⟨q, hq, hliving.concat id⟩
  tracked {uid} htracked := by
    by_cases huid : uid = workerOf pid
    · exact .inl ((Table.contains_insert _ _ _ _).mpr (.inl huid))
    · rcases h.tracked htracked with hchild | ⟨q, hq, hlost⟩
      · exact .inl ((Table.contains_insert _ _ _ _).mpr (.inr hchild))
      · refine .inr ⟨q, hq, hlost.concat fun hfork => huid ?_⟩
        rw [hq, ← Dealing.forked.inj hfork]
  lawful := h.lawful.concat nofun

/-- A child is taken into the pool. -/
theorem Answers.enrol (h : Answers (c, f, log, t)) {r : Worker.Record} {workers : Collection}
    (hinsert : c.workers.insert r = .ok workers) (hchild : f.children.contains r.uid = true) :
    Answers ({ c with workers }, f, log, t) where
  sound := h.sound.insert hinsert
  children := h.children
  tracked {uid} htracked := by
    obtain ⟨rfl, _⟩ := Collection.insert_eq_ok hinsert
    dsimp only at htracked ⊢
    rw [Collection.find?_put] at htracked
    split at htracked
    · rename_i huid
      exact .inl (huid ▸ hchild)
    · exact h.tracked htracked
  lawful := h.lawful

theorem Answers.createWorker (h : Answers (c, f, log, t)) :
    Answers (c.createWorker (p.watching calls) (f, log, t)) := by
  unfold Core.createWorker
  split
  · exact h
  rw [show (p.watching calls).bus = Fork.bus calls.watched from rfl, Fork.startWorker_bus]
  rename_i routing _ _
  rw [Fork.fork_watched]
  generalize calls.fork (settings (p.watching calls).config routing) t = started
  obtain ⟨outcome, t'⟩ := started
  cases outcome with
  | error failure => exact h.pool h.sound fun _ => id
  | ok pid =>
    have hforked : Answers (c, _, _, t') := h.forked pid
    dsimp only
    split
    · rename_i workers hinsert
      exact hforked.enrol hinsert ((Table.contains_insert _ _ _ _).mpr (.inl rfl))
    · refine hforked.stopWorker ⟨pid, rfl, .inl ?_⟩ true
      exact Backend.living_of_fork pid log

theorem Answers.createWorkers {x : Core × Fork × List Dealing × τ} (h : Answers x) (n : Nat) :
    Answers (Core.createWorkers (p.watching calls) n x.1 x.2) := by
  induction n generalizing x with
  | zero => exact h
  | succ n ih =>
    have hone : Answers (x.1.createWorker (p.watching calls) x.2) := h.createWorker
    exact ih hone

/-- The policy retires workers of the pool, and none when it has workers
created. -/
theorem Answers.balance (hvalid : p.config.validate = .ok ()) (h : Answers (c, f, log, t)) :
    Answers (c.balance (p.watching calls) (f, log, t)) := by
  let d := p.config.policy.decide c.workers (p.host.present t)
  let created := Core.createWorkers (p.watching calls) d.create c (f, log, t)
  show Answers (Core.stopWorkers (p.watching calls) false d.terminate created.1 created.2)
  dsimp only [created, d]
  rcases Nat.lt_or_ge c.workers.idle.length p.config.policy.minSpare with hfew | henough
  · rw [Pool.Policy.decide_of_few _ hfew]
    exact h.createWorkers _
  · obtain ⟨picked, hdecide, hpicked, _⟩ := Pool.Policy.decide_of_enough (p.host.present t)
      (le_of_validate hvalid).2 henough
    rw [hdecide]
    refine h.stopWorkers (fun uid huid => h.answerable ?_) false
    obtain ⟨r, hr, rfl⟩ := List.mem_map.mp huid
    have hidle := List.mem_mergeSort.mp (hpicked.subset hr)
    exact Option.ne_none_iff_exists'.mpr ⟨r, h.sound.find?_of_mem_idle hidle⟩

end Core

open Scheduler.Core (Answers)

/-- All work of a scheduler that is watched answers for whom it signals. -/
theorem upholds_answers (p : Premises τ) (calls : ProcessCalls τ)
    (hvalid : p.config.validate = .ok ()) : (p.watching calls).Upholds Answers where
  core h hworkers := h.pool (hworkers ▸ h.sound) fun _ hnone => hworkers ▸ hnone
  aside haside h := h.aside haside.spares
  update hupdate h := h.pool (h.sound.update hupdate) fun uid hnone =>
    (Collection.find?_update_eq_none_iff hupdate uid).mpr hnone
  tell hnews h := h.tell hnews
  create h := h.createWorker
  endAll hard htracked h := h.stopWorkers (fun uid huid => h.answerable (htracked uid huid)) hard
  balance h := h.balance hvalid
  clear h := h.pool (Collection.sound_empty _) fun _ _ => rfl

/-- A scheduler that forks its workers, from its creation on, whatever is done
with it and whatever the system calls return: every process that it signals is
one that it forked, and it has not been reaped since, exactly unless it was
reaped in a crowd by which the bus may have lost the ends. -/
theorem signals_reach_children_iff {p : Premises τ} {calls : ProcessCalls τ} {t₀ : τ}
    {c : Scheduler} {s : Fork × List Dealing × τ}
    (h : Lifetime (p.watching calls) (fun s s' => s'.1 = s.1 ∧ s'.2.1 = s.2.1)
      (.empty, [], t₀) c s) :
    ∀ earlier pid signal, earlier ++ [.signalled pid signal] <+: s.2.1 →
      .forked pid ∈ earlier ∧ (Living pid earlier ↔ ¬ Lost pid earlier) := by
  have hfirst : Answers ({ workers := .empty p.config.maxWorkers }, .empty, [], t₀) :=
    ⟨Collection.sound_empty _, nofun, fun huid => absurd rfl huid, Backend.lawful_nil⟩
  have hanswers := h.upheld (upholds_answers p calls h.validate)
    (fun hspared h => h.aside hspared) hfirst
  intro earlier pid signal hsignal
  rcases hanswers.lawful earlier pid signal hsignal with hliving | hlost
  · exact ⟨hliving.forked, iff_of_true hliving fun hlost => hlost.not_living hliving⟩
  · exact ⟨hlost.forked, iff_of_false hlost.not_living fun hspared => hspared hlost⟩

/-- Running it means running it on the bus with the chains written out. -/
theorem watching_eq {τ : Type} (p : Premises τ) (calls : ProcessCalls τ) :
    p.watching calls =
      { p.watching calls with
        bus := ⟨[Fork.react calls.watched], fun kind =>
          if kind ∈ Lifecycle.Backend.subscriptions.map Prod.fst then [⟨0, 0⟩] else []⟩ } := by
  rw [← Fork.bus_eq]
  rfl

/-- The scheduler of a pool for one worker is started and stopped. -/
theorem signals_reach_children_of_run :
    let p := lingering.watching immortal
    let ran := (lone.run p 0 (.empty, [], .nothing, 100, {})).2
    ran.2.2.1 = [.forked 100, .signalled 100 .kill] ∧
      .forked 100 ∈ [Dealing.forked 100] ∧
        (Living 100 [.forked 100] ↔ ¬ Lost 100 [.forked 100]) := by
  intro p ran
  have hlog : ran.2.2.1 = [.forked 100, .signalled 100 .kill] := by
    show (lone.run (lingering.watching immortal) 0 (.empty, [], .nothing, 100, {})).2.2.2.1 = _
    rw [watching_eq]
    rfl
  have hcreated : Lifetime p (fun s s' => s'.1 = s.1 ∧ s'.2.1 = s.2.1)
      (.empty, [], .nothing, 100, {}) lone (.empty, [], .nothing, 100, {}) := .created rfl
  refine ⟨hlog, signals_reach_children_iff (hcreated.run 0) [.forked 100] 100 .kill ?_⟩
  exact ⟨[], hlog.symm⟩

/-! ## A run that loses children -/

/-- A pool of so many workers, all of which may be retired, on a host on which
nothing is ever ready and no time passes.  The world has the pid file and the
number of processes that have not been reaped. -/
def teeming (n : Nat) : Premises (Node × Nat × Sim.World) where
  config :=
    { Config.standard ⟨"/tmp", "herd"⟩ with
      startWorkers := n, maxWorkers := n, minSpare := 0, maxSpare := 0 }
  host := Poll.Host.onSecond <| Poll.Host.onSecond
    { Sim.World.host with poll := fun _ _ w => (.interrupted, w), clock := fun _ => .zero }
  bus := .empty
  discipline _ _ s := (⟨0, []⟩, s)
  own := 99
  probe _ _ := .absent
  lockFile s := s.1
  setLockFile n s := (n, s.2)
  stopRequested _ := false

/-- Processes that have all ended when anybody looks. -/
def mortal : ProcessCalls (Node × Nat × Sim.World) where
  fork _ s := (.ok (Int32.ofNat (s.2.1 + 1)), s.1, s.2.1 + 1, s.2.2)
  kill _ _ s := (.sent, s)
  reap s :=
    (Fork.crowd s.2.1).foldr (fun pid rest => .child pid (some 0) rest) (.nobody (s.1, 0, s.2.2))
  parent _ := 1

/-- The scheduler of that pool before it is started. -/
def founder (n : Nat) : Scheduler :=
  ⟨{ workers := .empty n }, .empty (teeming n).config.tickInterval⟩

/-- The same scheduler once its bus is open. -/
def serving (n : Nat) : Scheduler :=
  ((founder n).locked.openBus ((teeming n).watching mortal) (.empty, [], .nothing, 0, {})).2.1

/-- The host of a scheduler that has opened its bus. -/
def hearing : Sim.World :=
  (Sim.World.bind .loopback false {}).2

/-- The same scheduler with these workers. -/
def staffed (n : Nat) (workers : Collection) : Scheduler :=
  { serving n with core := { (serving n).core with workers } }

theorem launching_founder (n : Nat) :
    (founder n).launching? ((teeming n).watching mortal) (.empty, [], .nothing, 0, {}) =
      some ((staffed n (.empty n)).core, ⟨∅, some 1⟩, [], PidLock.claimed 99, 0, hearing) := by
  rw [watching_eq]
  rfl

theorem reactor_start_founder (n : Nat) :
    ((founder n).start ((teeming n).watching mortal)
      (.empty, [], .nothing, 0, {})).2.1.reactor = (serving n).reactor := by
  rw [watching_eq]
  rfl

/-- In a turn nothing happens before the children that ended are reaped. -/
theorem balancing_staffed {n k : Nat} {workers : Collection} {f : Fork} {log : List Dealing}
    {node : Node} {s' : Fork × List Dealing × Node × Nat × Sim.World}
    (hreap : (staffed n workers).core.reap ((teeming n).watching mortal)
      (f, log, node, k, hearing) = ((staffed n workers).core, s')) :
    (staffed n workers).balancing? ((teeming n).watching mortal) (f, log, node, k, hearing) =
      some ((staffed n workers).core, s') := by
  have hturn : (staffed n workers).balancing? ((teeming n).watching mortal)
      (f, log, node, k, hearing) =
      let (c, s) := (staffed n workers).core.reap ((teeming n).watching mortal)
        (f, log, node, k, hearing)
      if c.terminating || false then none
      else some ({ c with terminating := c.terminating || false }, s) := rfl
  rw [hreap] at hturn
  exact hturn

/-- So many workers were created, and nothing else happened to the pool. -/
structure Teems (n k : Nat) (workers : Collection) (f : Fork) : Prop where
  sound : workers.Sound
  max : workers.max = n
  size : workers.size ≤ k
  idle : 0 < k → workers.idle ≠ []
  members : ∀ {uid}, workers.find? uid ≠ none → ∃ pid ∈ Fork.crowd k, uid = workerOf pid
  children : ∀ pid ∈ Fork.crowd k, f.children.contains (workerOf pid) = true

theorem teems_empty (n : Nat) (parent : Option Int32) : Teems n 0 (.empty n) ⟨∅, parent⟩ where
  sound := Collection.sound_empty n
  max := rfl
  size := Nat.le_refl _
  idle h := absurd h (Nat.lt_irrefl _)
  members h := absurd rfl h
  children _ h := absurd h List.not_mem_nil

namespace Teems

variable {n k : Nat} {workers : Collection} {f : Fork}

theorem room (h : Teems n k workers f) (hroom : k < n) : workers.size < workers.max := by
  rw [h.max]
  exact Nat.lt_of_le_of_lt h.size hroom

/-- One more worker is created. -/
theorem put (h : Teems n k workers f) (hroom : k < n) {r : Worker.Record}
    (huid : r.uid = workerOf (Int32.ofNat (k + 1))) (hidle : r.status.isIdle = true) :
    Teems n (k + 1) (workers.put r) { f with children := f.children.insert r.uid () } where
  sound := h.sound.put_of_room (h.room hroom)
  max := h.max
  size := by
    have hsize : (workers.put r).size = (workers.workers.erase r.uid).size + 1 :=
      Table.size_insert _ _ _
    have herase := Table.size_erase_le workers.workers r.uid
    have hbefore : workers.workers.size ≤ k := h.size
    omega
  idle _ := by
    have hfind : (workers.put r).find? r.uid = some r := by
      rw [Collection.find?_put, if_pos rfl]
    exact List.ne_nil_of_mem (Collection.mem_idle_of_find? hfind hidle)
  members {uid} htracked := by
    rw [Collection.find?_put] at htracked
    rw [Fork.crowd_succ]
    split at htracked
    · rename_i hnew
      exact ⟨_, List.mem_append_right _ List.mem_cons_self, hnew.trans huid⟩
    · obtain ⟨pid, hpid, hmember⟩ := h.members htracked
      exact ⟨pid, List.mem_append_left _ hpid, hmember⟩
  children pid hpid := by
    rw [Fork.crowd_succ] at hpid
    refine (Table.contains_insert _ _ _ _).mpr ?_
    rcases List.mem_append.mp hpid with hpid | hpid
    · exact .inr (h.children pid hpid)
    · rw [List.mem_singleton.mp hpid]
      exact .inl huid.symm

theorem createWorker (h : Teems n k workers f) (hroom : k < n) (log : List Dealing)
    (node : Node) (w : Sim.World) :
    ∃ workers' f' log',
      (staffed n workers).core.createWorker ((teeming n).watching mortal) (f, log, node, k, w) =
        ((staffed n workers').core, f', log', node, k + 1, w) ∧ Teems n (k + 1) workers' f' := by
  let pid := Int32.ofNat (k + 1)
  let r := Worker.Record.create (99 : Int32).toUInt32 (workerOf pid) "herd"
    ((teeming n).host.present (node, k + 1, w))
  have hfree : workers.insert r = .ok (workers.put r) := Collection.insert_of_room (h.room hroom)
  refine ⟨workers.put r, { f with children := f.children.insert (workerOf pid) () },
    log ++ [.forked pid], ?_, h.put hroom rfl rfl⟩
  obtain ⟨⟨routing, id⟩, hbus⟩ : ∃ bus, (staffed n workers).core.ipc = some bus := ⟨_, rfl⟩
  unfold Core.createWorker
  rw [hbus]
  dsimp only
  rw [show ((teeming n).watching mortal).bus = Fork.bus mortal.watched from rfl,
    Fork.startWorker_bus]
  rw [show mortal.watched.fork _ (log, node, k, w) =
    (.ok pid, log ++ [.forked pid], node, k + 1, w) from rfl]
  dsimp only
  split
  · rename_i created hinsert
    obtain rfl : workers.put r = created := Except.ok.inj (hfree.symm.trans hinsert)
    rw [← hbus]
    rfl
  · rename_i hrefused
    cases hfree.symm.trans hrefused

theorem createWorkers {m : Nat} (h : Teems n k workers f) (hroom : k + m ≤ n)
    (log : List Dealing) (node : Node) (w : Sim.World) :
    ∃ workers' f' log',
      Core.createWorkers ((teeming n).watching mortal) m (staffed n workers).core
          (f, log, node, k, w) =
        ((staffed n workers').core, f', log', node, k + m, w) ∧ Teems n (k + m) workers' f' := by
  induction m generalizing k workers f log with
  | zero => exact ⟨workers, f, log, rfl, h⟩
  | succ m ih =>
    obtain ⟨workers', f', log', hone, hnext⟩ := h.createWorker (by omega) log node w
    obtain ⟨workers'', f'', log'', hrest, hlast⟩ := ih hnext (by omega) log'
    rw [Nat.add_right_comm] at hrest hlast
    refine ⟨workers'', f'', log'', ?_, hlast⟩
    rw [Core.createWorkers, hone]
    exact hrest

end Teems

theorem exits_reap_mortal (s : Node × Nat × Sim.World) :
    (mortal.reap s).exits.map Prod.fst = Fork.crowd s.2.1 := by
  unfold mortal
  dsimp only
  induction Fork.crowd s.2.1 with
  | nil => rfl
  | cons pid pids ih => rw [List.foldr_cons, Reaping.exits, List.map_cons, ih]

namespace Teems

variable {n k : Nat} {workers : Collection} {f : Fork}

/-- All of them have ended when the scheduler looks, and it does not learn of
any end. -/
theorem reap (h : Teems n n workers f) (hmany : 1024 < n) (hpids : n < 2147483648)
    (log : List Dealing) {t : Node × Nat × Sim.World} (hliving : t.2.1 = n) :
    ∃ f' exits t', exits.map Prod.fst = Fork.crowd n ∧
      (staffed n workers).core.reap ((teeming n).watching mortal) (f, log, t) =
        ((staffed n workers).core, f', log ++ [.reaped exits], t') := by
  generalize hreact : Fork.react mortal .schedulerLoop (f, t) = reacted
  obtain ⟨r, f', t'⟩ := reacted
  have hstep := Fork.step_react mortal .schedulerLoop f t
  rw [hreact] at hstep
  have hexits : (mortal.reap t).exits.map Prod.fst = Fork.crowd n := hliving ▸ exits_reap_mortal t
  have hgone : (Fork.crowd n).map workerOf ⊆ Fork.departed f f' := by
    intro uid huid
    obtain ⟨pid, hpid, rfl⟩ := List.mem_map.mp huid
    refine (Core.mem_departed_iff hreact _).mpr ⟨h.children pid hpid, ?_⟩
    rw [← hexits] at hpid
    obtain ⟨y, hy, rfl⟩ := List.mem_map.mp hpid
    exact ⟨y, hy, rfl⟩
  have hnodup := (Fork.nodup_crowd hpids).map fun _ _ => Backend.workerOf_injective
  have hlength := (List.subperm_of_subset hnodup hgone).length_le
  rw [List.length_map, Fork.crowd, List.length_map, List.length_range] at hlength
  obtain ⟨uid, huid⟩ := List.exists_mem_of_length_pos (Nat.lt_of_lt_of_le (by omega) hlength)
  obtain ⟨hfailure, _, hemitted⟩ := hstep.of_departed huid
  refine ⟨f', (mortal.reap t).exits, t', hexits, ?_⟩
  rw [Core.reap_eq, Core.raise_watched (teeming n) hreact hfailure, if_neg (by omega)]
  rfl

/-- The policy retires somebody of them. -/
theorem balance (h : Teems n k workers f) (hsome : 0 < k)
    (s : Fork × List Dealing × Node × Nat × Sim.World) :
    ∃ pid ∈ Fork.crowd k, s.2.1 ++ [.signalled pid .interrupt] <+:
      ((staffed n workers).core.balance ((teeming n).watching mortal) s).2.2.1 := by
  let p := (teeming n).watching mortal
  let c := (staffed n workers).core
  obtain ⟨picked, hdecide, hpicked, hexcess, _⟩ := Pool.Policy.decide_of_enough
    (p := p.config.policy) (p.host.present s) (Nat.zero_le 0) (Nat.zero_le workers.idle.length)
  cases picked with
  | nil => exact absurd (List.eq_nil_of_length_eq_zero (Nat.le_zero.mp hexcess)) (h.idle hsome)
  | cons r rest =>
    have hidle := List.mem_mergeSort.mp (hpicked.subset List.mem_cons_self)
    have htracked : workers.find? r.uid ≠ none :=
      Option.ne_none_iff_exists'.mpr ⟨r, h.sound.find?_of_mem_idle hidle⟩
    obtain ⟨pid, hpid, huid⟩ := h.members htracked
    have hbalance : c.balance p s =
        Core.stopWorkers p false (r.uid :: rest.map (·.uid)) c s := by
      let d := p.config.policy.decide workers (p.host.present s)
      show Core.stopWorkers p false d.terminate (Core.createWorkers p d.create c s).1
        (Core.createWorkers p d.create c s).2 = _
      rw [show d = _ from hdecide]
      rfl
    have hfirst := Core.log_stopWorkers_cons (teeming n) mortal r.uid false
      (rest.map (·.uid)) c s
    rw [← hbalance, huid, Backend.processOf_workerOf] at hfirst
    exact ⟨pid, hpid, hfirst⟩

end Teems

/-- A start creates all the workers. -/
theorem start_founder (n : Nat) :
    ∃ workers f log, Teems n n workers f ∧
      ((founder n).start ((teeming n).watching mortal) (.empty, [], .nothing, 0, {})).2 =
        (staffed n workers, f, log, PidLock.claimed 99, n, hearing) := by
  obtain ⟨workers, f, log, hcreated, hteems⟩ := (teems_empty n (some 1)).createWorkers
    (m := n) (Nat.le_of_eq (Nat.zero_add n)) [] (PidLock.claimed 99) hearing
  rw [Nat.zero_add] at hcreated hteems
  refine ⟨workers, f, log, hteems, ?_⟩
  have hreactor := reactor_start_founder n
  have hstarted := (start_of_launching (launching_founder n)).2.trans hcreated
  generalize (founder n).start _ _ = started at hreactor hstarted
  obtain ⟨_, ⟨core, reactor⟩, s⟩ := started
  obtain ⟨rfl, rfl⟩ := Prod.mk.inj hstarted
  obtain rfl : reactor = _ := hreactor
  rfl

/-- Somebody of a crowd is signalled in the turn in which all of them were
reaped. -/
theorem crowd_signalled {n : Nat} (hmany : 1024 < n) (hpids : n < 2147483648) :
    let p := (teeming n).watching mortal
    let running := ((founder n).start p (.empty, [], .nothing, 0, {})).2
    ∃ earlier pid signal,
      earlier ++ [.signalled pid signal] <+: (running.1.tick p running.2).2.2.2.1 ∧
        ¬ Living pid earlier := by
  intro p running
  obtain ⟨workers, f, log, hteems, hrunning⟩ := start_founder n
  obtain ⟨f', exits, t', hexits, hreap⟩ :=
    hteems.reap hmany hpids log (t := (PidLock.claimed 99, n, hearing)) rfl
  have hticked := (tick_of_balancing (balancing_staffed hreap)).2.2
  obtain ⟨pid, hpid, hsignalled⟩ := hteems.balance (by omega) (f', log ++ [.reaped exits], t')
  rw [← hticked] at hsignalled
  have hreaps : (Dealing.reaped exits).Reaps pid := by
    show pid ∈ exits.map Prod.fst
    rw [hexits]
    exact hpid
  refine ⟨log ++ [.reaped exits], pid, .interrupt, ?_, Backend.not_living_of_reaps hreaps nofun⟩
  rw [show running = _ from hrunning]
  exact hsignalled

/-- 1025 workers have all ended when the scheduler turns, and in the same turn
it signals one that it has reaped. -/
theorem lost_child_signalled :
    let p := (teeming 1025).watching mortal
    let running := ((founder 1025).start p (.empty, [], .nothing, 0, {})).2
    create p.config = .ok (founder 1025) ∧
      ¬ ∀ earlier pid signal,
        earlier ++ [.signalled pid signal] <+: (running.1.tick p running.2).2.2.2.1 →
          Living pid earlier := by
  refine ⟨rfl, ?_⟩
  -- Under a name the number is not a literal that the scheduler is run on.
  obtain ⟨n, hn⟩ : ∃ n : Nat, n = 1025 := ⟨_, rfl⟩
  rw [← hn]
  intro hall
  obtain ⟨earlier, pid, signal, hsignalled, hdead⟩ :=
    crowd_signalled (n := n) (by omega) (by omega)
  exact hdead (hall earlier pid signal hsignalled)

end Supervisor.Scheduler
