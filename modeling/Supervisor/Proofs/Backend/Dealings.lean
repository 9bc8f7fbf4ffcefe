import Supervisor.Proofs.Backend.Ends

/-!
# What the forking backend does with processes

The backend forks, signals and reaps processes, and nothing else.  It signals
whatever process it is asked to signal, and it forgets a child as soon as the
child is reaped, whether or not the bus has room for the report.

* `ProcessCalls.watched` writes its dealings down.  `react_watched` says that
  this changes nothing else, and what a reaction adds to the log.
* A pid is `Living` after a fork that gave it out, as long as it is not
  reaped.  It is `Lost` after it was reaped in a crowd, by which more ends are
  to be reported than the bus may have room for.
* A log is `Lawful` if whoever is signalled was living or lost at the time.
-/

namespace Supervisor.Backend

open Lifecycle (Event)

variable {σ τ : Type}

/-! ## What the backend does with processes -/

/-- A dealing of the backend with processes. -/
inductive Dealing where
  | forked (pid : Int32)
  | signalled (pid : Int32) (signal : Signal)
  /-- All answers to one row of calls for children that ended. -/
  | reaped (exits : List (Int32 × Option Int32))
deriving DecidableEq, Repr

/-- The same answers with another state behind them. -/
def Reaping.map (g : σ → τ) : Reaping σ → Reaping τ
  | .child pid code next => .child pid code (next.map g)
  | .nobody s => .nobody (g s)
  | .failed s => .failed (g s)

/-- The calls, with a log of what is done with processes. -/
def ProcessCalls.watched (calls : ProcessCalls σ) : ProcessCalls (List Dealing × σ) where
  fork settings x :=
    match calls.fork settings x.2 with
    | (.ok pid, s) => (.ok pid, x.1 ++ [.forked pid], s)
    | (.error failure, s) => (.error failure, x.1, s)
  kill pid signal x :=
    let (delivered, s) := calls.kill pid signal x.2
    (delivered, x.1 ++ [.signalled pid signal], s)
  reap x := (calls.reap x.2).map fun s => (x.1 ++ [.reaped (calls.reap x.2).exits], s)
  parent x := calls.parent x.2

namespace Fork

theorem settle_map (g : σ → τ) (answers : Reaping σ) (children : Table .worker Unit) :
    settle children (answers.map g) =
      ((settle children answers).1, (settle children answers).2.1,
        g (settle children answers).2.2) := by
  induction answers generalizing children with
  | nobody s => rfl
  | failed s => rfl
  | child pid code next ih =>
    rw [Reaping.map]
    by_cases hknown : children.contains (workerOf pid) = true
    · rw [settle_child_of_known hknown, settle_child_of_known hknown, ih]
    · rw [settle_child_of_unknown hknown, settle_child_of_unknown hknown, ih]

/-- What the reaction to an event does with processes. -/
def dealings (calls : ProcessCalls σ) (e : Event) (s : σ) : List Dealing :=
  match e with
  | .workerCreate settings =>
    match (calls.fork settings s).1 with
    | .ok pid => [.forked pid]
    | .error _ => []
  | .workerTerminate uid hard => [.signalled (processOf uid) (if hard then .kill else .interrupt)]
  | .schedulerLoop => [.reaped (calls.reap s).exits]
  | _ => []

theorem fork_watched (calls : ProcessCalls σ) (settings : Worker.Settings) (log : List Dealing)
    (s : σ) :
    calls.watched.fork settings (log, s) =
      match calls.fork settings s with
      | (.ok pid, s) => (.ok pid, log ++ [.forked pid], s)
      | (.error failure, s) => (.error failure, log, s) :=
  rfl

theorem kill_watched (calls : ProcessCalls σ) (pid : Int32) (signal : Signal)
    (log : List Dealing) (s : σ) :
    calls.watched.kill pid signal (log, s) =
      ((calls.kill pid signal s).1, log ++ [.signalled pid signal],
        (calls.kill pid signal s).2) :=
  rfl

/-- Watching the backend adds its dealings to the log and changes nothing
else. -/
theorem react_watched (calls : ProcessCalls σ) (e : Event) (f : Fork) (log : List Dealing)
    (s : σ) :
    react calls.watched e (f, log, s) =
      ((react calls e (f, s)).1, (react calls e (f, s)).2.1, log ++ dealings calls e s,
        (react calls e (f, s)).2.2) := by
  cases e with
  | workerCreate settings =>
    simp only [react, create, ProcessCalls.watched, dealings]
    rcases calls.fork settings s with ⟨_ | _, s'⟩
    · simp
    · rfl
  | workerTerminate uid hard =>
    show terminate calls.watched uid hard f (log, s) =
      ((terminate calls uid hard f s).1, (terminate calls uid hard f s).2.1, _,
        (terminate calls uid hard f s).2.2)
    unfold terminate
    rw [kill_watched]
    generalize calls.kill (processOf uid) (if hard then .kill else .interrupt) s = killed
    obtain ⟨delivered, s'⟩ := killed
    cases delivered with
    | sent | nobody | refused => rfl
  | schedulerLoop =>
    simp only [react, loop, ProcessCalls.watched, settle_map, dealings]
  | kernelStart | schedulerStart | schedulerStop | workerCreated | workerInit | workerLoop
  | workerExit | workerTerminated => simp [react, dealings, ProcessCalls.watched]

end Fork

/-! ## Living and lost -/

/-- The process is reaped. -/
def Dealing.Reaps (pid : Int32) : Dealing → Prop
  | .reaped exits => pid ∈ exits.map Prod.fst
  | _ => False

/-- The process was forked and has not been reaped since. -/
def Living (pid : Int32) (log : List Dealing) : Prop :=
  ∃ earlier later, log = earlier ++ .forked pid :: later ∧ ∀ d ∈ later, ¬ d.Reaps pid

/-- So many children end at once that their ends, with an order to stop, may
be more than the bus has room for. -/
def Crowd (exits : List (Int32 × Option Int32)) (log : List Dealing) : Prop :=
  ∃ pids : List Int32, pids.Nodup ∧ 1024 ≤ pids.length ∧
    ∀ pid ∈ pids, Living pid log ∧ pid ∈ exits.map Prod.fst

/-- The process was reaped in a crowd and has not been forked again since. -/
def Lost (pid : Int32) (log : List Dealing) : Prop :=
  ∃ earlier exits later, log = earlier ++ .reaped exits :: later ∧ Living pid earlier ∧
    pid ∈ exits.map Prod.fst ∧ Crowd exits earlier ∧ .forked pid ∉ later

section Logs

variable {pid : Int32} {log : List Dealing} {d : Dealing}

theorem Living.forked (h : Living pid log) : .forked pid ∈ log := by
  obtain ⟨earlier, later, rfl, _⟩ := h
  exact List.mem_append_right _ List.mem_cons_self

theorem Lost.forked (h : Lost pid log) : .forked pid ∈ log := by
  obtain ⟨earlier, exits, later, rfl, hliving, _⟩ := h
  exact List.mem_append_left _ hliving.forked

theorem living_of_fork (pid : Int32) (log : List Dealing) : Living pid (log ++ [.forked pid]) :=
  ⟨log, [], rfl, nofun⟩

theorem Living.concat (h : Living pid log) (hd : ¬ d.Reaps pid) : Living pid (log ++ [d]) := by
  obtain ⟨earlier, later, rfl, hlater⟩ := h
  refine ⟨earlier, later ++ [d], by simp, fun d' hd' => ?_⟩
  rcases List.mem_append.mp hd' with hd' | hd'
  · exact hlater d' hd'
  · rw [List.mem_singleton.mp hd']
    exact hd

theorem Lost.concat (h : Lost pid log) (hd : d ≠ .forked pid) : Lost pid (log ++ [d]) := by
  obtain ⟨earlier, exits, later, rfl, hliving, hexits, hcrowd, hlater⟩ := h
  refine ⟨earlier, exits, later ++ [d], by simp, hliving, hexits, hcrowd, fun hmem => ?_⟩
  rcases List.mem_append.mp hmem with hmem | hmem
  · exact hlater hmem
  · exact hd (List.mem_singleton.mp hmem).symm

theorem Living.lost {exits : List (Int32 × Option Int32)} (h : Living pid log)
    (hexits : pid ∈ exits.map Prod.fst) (hcrowd : Crowd exits log) :
    Lost pid (log ++ [.reaped exits]) :=
  ⟨log, exits, [], rfl, h, hexits, hcrowd, List.not_mem_nil⟩

/-- Who is reaped and not forked again is not living. -/
theorem not_living_of_reaps {later : List Dealing} (hd : d.Reaps pid)
    (hlater : .forked pid ∉ later) : ¬ Living pid (log ++ d :: later) := by
  intro ⟨before, after, hlog, hafter⟩
  rcases List.append_eq_append_iff.mp hlog with ⟨between, _, hrest⟩ | ⟨between, _, hrest⟩
  · cases between with
    | nil =>
      cases hrest
      exact hd
    | cons d' between =>
      obtain ⟨_, rfl⟩ := List.cons.inj hrest
      exact hlater (List.mem_append_right _ List.mem_cons_self)
  · cases between with
    | nil =>
      cases hrest
      exact hd
    | cons d' between =>
      obtain ⟨_, rfl⟩ := List.cons.inj hrest
      exact hafter d (List.mem_append_right _ List.mem_cons_self) hd

theorem Lost.not_living (h : Lost pid log) : ¬ Living pid log := by
  obtain ⟨earlier, exits, later, rfl, _, hexits, _, hlater⟩ := h
  exact not_living_of_reaps (d := .reaped exits) hexits hlater

end Logs

/-- Whoever is signalled is living, or was lost before. -/
def Lawful (log : List Dealing) : Prop :=
  ∀ earlier pid signal, earlier ++ [.signalled pid signal] <+: log →
    Living pid earlier ∨ Lost pid earlier

theorem lawful_nil : Lawful [] := by
  intro earlier pid signal h
  cases List.append_eq_nil_iff.mp (List.prefix_nil.mp h) with
  | intro _ h => cases h

theorem Lawful.concat {log : List Dealing} {d : Dealing} (h : Lawful log)
    (hd : ∀ pid signal, d = .signalled pid signal → Living pid log ∨ Lost pid log) :
    Lawful (log ++ [d]) := by
  intro earlier pid signal hprefix
  rcases List.prefix_concat_iff.mp hprefix with heq | hprefix
  · obtain ⟨rfl, hlast⟩ := List.append_inj' heq rfl
    exact hd pid signal (List.cons.inj hlast).1.symm
  · exact h earlier pid signal hprefix

end Supervisor.Backend
