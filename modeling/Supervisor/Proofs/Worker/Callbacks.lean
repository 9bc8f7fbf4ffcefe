import Supervisor.Proofs.Worker.Moments
import Supervisor.Proofs.Worker.Noted
import Supervisor.Proofs.Worker.Reports

/-!
# How a worker calls its service

The order of callbacks, whatever the service does, whatever the worker
receives and whatever fails.

* `Orderly` says at each stage of a run what was called so far, and
  `Orderly.step` that it stays so.
* `Closing` are the moments from which there is only the way out.  Whoever
  `Resigns` gets there without another callback, and stays there
  (`Resigns.iterate`).

`callbacks_keep_contract` puts this together for all runs.
-/

namespace Supervisor.Worker

variable {σ : Type}

/-! ## What keeps the context -/

theorem dispatch_of_stop (service : Service σ) {e : Envelope} (h : e.message = .command .stop)
    (c : Context) (s : σ) : dispatch service e c s = (.ok (), c.requestExit, s) := by
  unfold dispatch
  rw [h]

theorem dispatch_of_ne_stop (service : Service σ) {e : Envelope}
    (h : e.message ≠ .command .stop) (c : Context) (s : σ) :
    dispatch service e c s = service.onMessage e c s := by
  unfold dispatch
  split
  · rename_i hstop
    exact absurd hstop h
  · rfl

/-- Tasks are counted by nobody else, and an exit that was asked for stays so. -/
structure Context.Keeps (c c' : Context) : Prop where
  tasks : c'.record.tasks = c.record.tasks
  exitRequested : c.exitRequested = true → c'.exitRequested = true

/-- A service neither counts tasks itself nor takes back that the worker is to
leave, which the context gives it no means to do. -/
structure Service.Discreet (service : Service σ) : Prop where
  start : ∀ (c : Context) s, c.Keeps (service.start c s).2.1
  step : ∀ (c : Context) s, c.Keeps (service.step c s).2.1
  onMessage : ∀ e (c : Context) s, c.Keeps (service.onMessage e c s).2.1

theorem tasks_of_setStatus? {r r' : Record} {status : Status} {now : Millis}
    (h : r.setStatus? status now = some r') : r'.tasks = r.tasks := by
  unfold Record.setStatus? at h
  split at h
  · cases h
    rfl
  · cases h

theorem tasks_getD_setStatus? (r : Record) (status : Status) (now : Millis) :
    ((r.setStatus? status now).getD r).tasks = r.tasks := by
  cases hrecord : r.setStatus? status now with
  | none => rfl
  | some record => exact tasks_of_setStatus? hrecord

theorem tasks_finishTask (r : Record) (now : Millis) :
    (r.finishTask now).tasks = r.tasks + 1 := by
  obtain ⟨rate, hfinished⟩ := finishTask_eq r now
  rw [hfinished]

theorem report_keeps (c : Context) (w : Station σ) (s : σ) :
    (c.report w s).2.1.record.tasks = c.record.tasks ∧
      (c.report w s).2.1.exitRequested = c.exitRequested := by
  unfold Context.report Context.send
  exact ⟨rfl, rfl⟩

theorem transition_keeps (c : Context) (w : Station σ) (status : Status) (s : σ) :
    (c.transition w status s).2.1.record.tasks = c.record.tasks ∧
      (c.transition w status s).2.1.exitRequested = c.exitRequested := by
  unfold Context.transition
  split
  · exact ⟨rfl, rfl⟩
  · split
    · exact ⟨rfl, rfl⟩
    · rename_i record hrecord
      obtain ⟨htasks, hexit⟩ := report_keeps { c with record } w s
      exact ⟨htasks.trans (tasks_of_setStatus? hrecord), hexit⟩

/-- What follows a step counts the task if one was completed, and only goes on
below the limit. -/
theorem settle_tasks (w : Station σ) (limit : UInt64) (step : Step) (c : Context) (s : σ) :
    let out := settle w limit step c s
    out.2.1.record.tasks = (if step = .finished then c.record.tasks + 1 else c.record.tasks) ∧
      ∀ busy, out.1 = .again busy → step = .finished → limit ≠ 0 →
        out.2.1.record.tasks < limit := by
  cases step with
  | idle =>
    have hkeeps := (transition_keeps c w .waiting s).1
    unfold settle
    dsimp only
    generalize c.transition w .waiting s = moved at hkeeps ⊢
    obtain ⟨_ | _, c', s'⟩ := moved <;> exact ⟨hkeeps, nofun⟩
  | busy =>
    have hkeeps := (transition_keeps c w .running s).1
    unfold settle
    dsimp only
    generalize c.transition w .running s = moved at hkeeps ⊢
    obtain ⟨_ | _, c', s'⟩ := moved <;> exact ⟨hkeeps, nofun⟩
  | finished =>
    have hcounted := (tasks_getD_setStatus? (c.record.finishTask (w.host.present s)) .waiting
      (w.host.present s)).trans (tasks_finishTask c.record (w.host.present s))
    unfold settle
    dsimp only
    generalize (((c.record.finishTask (w.host.present s)).setStatus? .waiting
      (w.host.present s)).getD (c.record.finishTask (w.host.present s))) = record at hcounted ⊢
    have hkeeps := (report_keeps { c with record } w s).1
    generalize Context.report { c with record } w s = reported at hkeeps ⊢
    obtain ⟨_ | _, c', s'⟩ := reported
    · exact ⟨hkeeps.trans hcounted, nofun⟩
    · dsimp only at hkeeps ⊢
      split
      · exact ⟨hkeeps.trans hcounted, nofun⟩
      · rename_i hbelow
        refine ⟨hkeeps.trans hcounted, fun _ _ _ hlimit => ?_⟩
        exact UInt64.not_le.mp fun hle => hbelow ⟨hlimit, hle⟩

/-! ## The order of callbacks -/

/-- The service was started, and worked since: within the limit, if there is
one. -/
def Served (limit : UInt64) (log : List Call) : Prop :=
  ∃ work, log = .start :: work ∧ (∀ call ∈ work, call.Works) ∧
    (limit ≠ 0 → work.countP Call.finishes ≤ limit.toNat)

/-- The service was started and worked since, and the worker has counted its
tasks and is below the limit. -/
def Serves (limit : UInt64) (c : Context) (log : List Call) : Prop :=
  ∃ work, log = .start :: work ∧ (∀ call ∈ work, call.Works) ∧
    (limit ≠ 0 → work.countP Call.finishes = c.record.tasks.toNat ∧ c.record.tasks < limit)

section Order

variable {limit : UInt64} {c c' : Context} {log : List Call}

theorem served_start (limit : UInt64) : Served limit [.start] :=
  ⟨[], rfl, List.forall_mem_nil _, fun _ => Nat.zero_le _⟩

theorem serves_start (htasks : c.record.tasks = 0) : Serves limit c [.start] := by
  refine ⟨[], rfl, List.forall_mem_nil _, fun hlimit => ?_⟩
  rw [htasks]
  exact ⟨rfl, UInt64.pos_iff_ne_zero.mpr hlimit⟩

theorem Serves.served (h : Serves limit c log) : Served limit log := by
  obtain ⟨work, hlog, hworks, hcount⟩ := h
  refine ⟨work, hlog, hworks, fun hlimit => ?_⟩
  obtain ⟨heq, hlt⟩ := hcount hlimit
  rw [heq]
  exact Nat.le_of_lt (UInt64.lt_iff_toNat_lt.mp hlt)

theorem Serves.congr (h : Serves limit c log) (htasks : c'.record.tasks = c.record.tasks) :
    Serves limit c' log := by
  unfold Serves
  rw [htasks]
  exact h

/-- A callback that completes no task. -/
theorem Serves.call (h : Serves limit c log) (call : Call) (hworks : call.Works)
    (hfinishes : call.finishes = false) (htasks : c'.record.tasks = c.record.tasks) :
    Serves limit c' (log ++ [call]) := by
  obtain ⟨work, rfl, hwork, hcount⟩ := h.congr htasks
  refine ⟨work ++ [call], rfl, List.forall_mem_append.mpr ⟨hwork, by simpa using hworks⟩, ?_⟩
  rw [List.countP_append, List.countP_singleton, hfinishes]
  exact hcount

/-- A step that completes a task is counted, and there is room for it. -/
theorem Serves.finish (h : Serves limit c log)
    (htasks : c'.record.tasks = c.record.tasks + 1) :
    Served limit (log ++ [.step (.ok .finished)]) ∧
      ((limit ≠ 0 → c'.record.tasks < limit) →
        Serves limit c' (log ++ [.step (.ok .finished)])) := by
  obtain ⟨work, rfl, hwork, hcount⟩ := h
  have hworks : ∀ call ∈ work ++ [.step (.ok .finished)], call.Works :=
    List.forall_mem_append.mpr ⟨hwork, by simp [Call.Works]⟩
  have hcounted : limit ≠ 0 →
      (work ++ [Call.step (.ok .finished)]).countP Call.finishes = c'.record.tasks.toNat ∧
        c'.record.tasks.toNat ≤ limit.toNat := by
    intro hlimit
    obtain ⟨heq, hlt⟩ := hcount hlimit
    have hroom := UInt64.lt_iff_toNat_lt.mp hlt
    have hsize := limit.toNat_lt
    rw [List.countP_append, List.countP_singleton, heq, htasks, UInt64.toNat_add]
    simp only [Call.finishes, if_true, UInt64.toNat_one]
    omega
  constructor
  · refine ⟨work ++ [.step (.ok .finished)], rfl, hworks, fun hlimit => ?_⟩
    rw [(hcounted hlimit).1]
    exact (hcounted hlimit).2
  · exact fun hbelow => ⟨work ++ [.step (.ok .finished)], rfl, hworks, fun hlimit =>
      ⟨(hcounted hlimit).1, hbelow hlimit⟩⟩

end Order

/-- What was called so far, at each stage. -/
def Orderly (limit : UInt64) (m : Moment (List Call × σ)) : Prop :=
  match m.stage with
  | .starting =>
    m.world.1 = [] ∧ m.context.record.tasks = 0 ∧ m.context.exitRequested = false
  | .between _ | .poised => Serves limit m.context m.world.1
  | .holding _ => Serves limit m.context m.world.1 ∧ m.context.exitRequested = false
  | .leaving _ => Served limit m.world.1
  | .gone _ => ∃ log, m.world.1 = log ++ [.stop] ∧ Served limit log

section Contract

variable {w : Station σ} {service : Service σ} {settings : Settings}
  {m : Moment (List Call × σ)}

/-- The service is started, first of all. -/
theorem orderly_started (hservice : service.Discreet) {c : Context} {s : σ}
    (htasks : c.record.tasks = 0) :
    Orderly settings.maxTasks (next w.beside service.noted settings ⟨.starting, c, [], s⟩) := by
  have hkeeps := hservice.start c s
  simp only [next, Service.noted]
  generalize service.start c s = started at hkeeps ⊢
  obtain ⟨e | _, c', s'⟩ := started
  · exact served_start _
  · dsimp only
    rw [Context.transition_beside]
    have hmoved := (transition_keeps c' w .waiting s').1
    generalize c'.transition w .waiting s' = moved at hmoved ⊢
    obtain ⟨e | _, c'', s''⟩ := moved
    · exact served_start _
    · exact serves_start ((hmoved.trans hkeeps.tasks).trans htasks)

/-- A step is a callback, and counted if it completes a task. -/
theorem orderly_advance (hservice : service.Discreet) {limit : UInt64} {c : Context}
    {log : List Call} (h : Serves limit c log) (s : σ) :
    Orderly limit (.ofTurn (advance w.beside service.noted limit c (log, s))) := by
  unfold advance
  split
  · exact h.served
  · have hkeeps := hservice.step c s
    simp only [Service.noted]
    generalize service.step c s = stepped at hkeeps ⊢
    obtain ⟨e | step, c', s'⟩ := stepped
    · exact (h.call (.step (.error e)) trivial rfl hkeeps.tasks).served
    · dsimp only
      rw [settle_beside]
      obtain ⟨htasks, hbelow⟩ := settle_tasks w limit step c' s'
      generalize settle w limit step c' s' = settled at htasks hbelow ⊢
      obtain ⟨outcome, c'', s''⟩ := settled
      by_cases hstep : step = .finished
      · subst hstep
        rw [if_pos rfl, hkeeps.tasks] at htasks
        obtain ⟨hserved, hserves⟩ := h.finish htasks
        rcases outcome with busy | result
        · exact hserves (hbelow busy rfl rfl)
        · exact hserved
      · rw [if_neg hstep, hkeeps.tasks] at htasks
        have hfinishes : Call.finishes (.step (.ok step)) = false := by
          cases step <;> first | rfl | exact absurd rfl hstep
        have hserves := h.call (.step (.ok step)) trivial hfinishes htasks
        rcases outcome with busy | result
        · exact hserves
        · exact hserves.served

/-- What was called stays orderly. -/
theorem Orderly.step (hservice : service.Discreet) (h : Orderly settings.maxTasks m) :
    Orderly settings.maxTasks (next w.beside service.noted settings m) := by
  obtain ⟨stage, c, log, s⟩ := m
  cases stage with
  | starting =>
    obtain ⟨rfl, htasks, _⟩ := h
    exact orderly_started hservice htasks
  | between busy =>
    have h : Serves settings.maxTasks c log := h
    simp only [Worker.next]
    split
    · exact h.served
    · rename_i hstays
      have hexit : c.exitRequested = false := by
        rw [Bool.not_eq_true, Context.isTerminating, Bool.or_eq_false_iff] at hstays
        exact hstays.1
      rw [show w.beside.host = w.host.onSecond from rfl, Bus.Client.receive_onSecond]
      rcases c.link.receive w.host (if busy then .zero else settings.tick) s
        with ⟨e | (_ | e), link, s'⟩
      · cases e <;> exact h.served
      · exact h.congr rfl
      · exact ⟨h.congr rfl, hexit⟩
  | holding e =>
    obtain ⟨h, _⟩ : Serves settings.maxTasks c log ∧ c.exitRequested = false := h
    by_cases hstop : e.message = .command .stop
    · simp only [Worker.next, dispatch_of_stop _ hstop]
      exact h.congr rfl
    · have hkeeps := hservice.onMessage e c s
      simp only [Worker.next, dispatch_of_ne_stop _ hstop, Service.noted]
      generalize service.onMessage e c s = answered at hkeeps ⊢
      obtain ⟨e' | _, c', s'⟩ := answered
      · exact (h.call (.message e) hstop rfl hkeeps.tasks).served
      · exact h.call (.message e) hstop rfl hkeeps.tasks
  | poised => exact orderly_advance hservice h s
  | leaving result =>
    simp only [Worker.next]
    rw [leave_noted]
    exact ⟨log, rfl, h⟩
  | gone result => exact h

theorem Orderly.iterate (hservice : service.Discreet) (h : Orderly settings.maxTasks m) (k : Nat) :
    Orderly settings.maxTasks ((next w.beside service.noted settings)^[k] m) := by
  induction k with
  | zero => exact h
  | succ k ih =>
    rw [Function.iterate_succ_apply']
    exact ih.step hservice

/-- What was called when a run has ended, or goes on. -/
theorem Orderly.log_of_endsRun {limit : UInt64} {stage : Stage} {c : Context}
    {x : List Call × σ} {result : Option (Except Error Int32)}
    (h : Orderly limit ⟨stage, c, x⟩) (hstage : stage.EndsRun result) :
    ∃ work, x.1 = .start :: work ++ (if result.isSome then [.stop] else []) ∧
      (∀ call ∈ work, call.Works) ∧
      (limit ≠ 0 → work.countP Call.finishes ≤ limit.toNat) := by
  cases result with
  | none =>
    obtain ⟨busy, rfl⟩ := hstage
    obtain ⟨work, hlog, hworks, hcount⟩ := Serves.served h
    exact ⟨work, by simpa using hlog, hworks, hcount⟩
  | some result =>
    obtain ⟨served, _, rfl⟩ := hstage
    obtain ⟨log, hlog, work, rfl, hworks, hcount⟩ := h
    exact ⟨work, hlog, hworks, hcount⟩

/-! ## The way out -/

/-- From here on there is only the way out. -/
def Closing (w : Station σ) (m : Moment σ) : Prop :=
  match m.stage with
  | .between _ | .poised => m.context.isTerminating w m.world = true
  | .leaving _ | .gone _ => True
  | .starting | .holding _ => False

/-- An exit was asked for, the command to stop is about to be dispatched, or
the worker takes a look and finds that it was asked from outside to stop. -/
def Resigns (w : Station σ) (m : Moment σ) : Prop :=
  m.context.exitRequested = true ∨
    match m.stage with
    | .holding e => e.message = .command .stop
    | .between _ | .poised => w.asked m.world = true
    | _ => False

/-- From a log to a later one nothing is called but the end of the service. -/
def OnlyStops (log log' : List Call) : Prop :=
  ∃ more, log' = log ++ more ∧ ∀ call ∈ more, call = .stop

theorem OnlyStops.refl (log : List Call) : OnlyStops log log :=
  ⟨[], (List.append_nil log).symm, List.forall_mem_nil _⟩

theorem OnlyStops.trans {log log' log'' : List Call} (h : OnlyStops log log')
    (h' : OnlyStops log' log'') : OnlyStops log log'' := by
  obtain ⟨more, rfl, hmore⟩ := h
  obtain ⟨more', rfl, hmore'⟩ := h'
  exact ⟨more ++ more', List.append_assoc _ _ _, List.forall_mem_append.mpr ⟨hmore, hmore'⟩⟩

theorem Closing.step (h : Closing w.beside m) :
    Closing w.beside (next w.beside service.noted settings m) ∧
      OnlyStops m.world.1 (next w.beside service.noted settings m).world.1 := by
  obtain ⟨stage, c, log, s⟩ := m
  cases stage with
  | starting => cases h
  | holding e => cases h
  | between busy =>
    have hleaves : c.isTerminating w.beside (log, s) = true := h
    simp only [Worker.next, hleaves, if_true]
    exact ⟨trivial, .refl log⟩
  | poised =>
    have hleaves : c.isTerminating w.beside (log, s) = true := h
    simp only [Worker.next, advance, hleaves, if_true]
    exact ⟨trivial, .refl log⟩
  | leaving result =>
    simp only [Worker.next]
    rw [leave_noted]
    exact ⟨trivial, [.stop], rfl, fun _ hcall => List.mem_singleton.mp hcall⟩
  | gone result => exact ⟨trivial, .refl log⟩

theorem Closing.iterate (h : Closing w.beside m) (k : Nat) :
    OnlyStops m.world.1 ((next w.beside service.noted settings)^[k] m).world.1 := by
  induction k generalizing m with
  | zero => exact .refl _
  | succ k ih =>
    obtain ⟨hclosing, hlog⟩ := h.step
    rw [Function.iterate_succ_apply]
    exact hlog.trans (ih hclosing)

/-- Whoever resigns calls the service no more, but for its end. -/
theorem Resigns.iterate {limit : UInt64} (h : Resigns w.beside m) (hm : Orderly limit m)
    (k : Nat) :
    OnlyStops m.world.1 ((next w.beside service.noted settings)^[k] m).world.1 := by
  obtain ⟨stage, c, log, s⟩ := m
  cases stage with
  | starting =>
    rcases h with h | h
    · cases h.symm.trans hm.2.2
    · cases h
  | holding e =>
    rcases h with h | h
    · cases h.symm.trans hm.2
    · cases k with
      | zero => exact .refl log
      | succ k =>
        -- The command asks for the exit, and there is nothing else in this moment.
        have hnext : Worker.next w.beside service.noted settings ⟨.holding e, c, log, s⟩ =
            ⟨.poised, c.requestExit, log, s⟩ := by
          simp only [Worker.next, dispatch_of_stop _ h]
        rw [Function.iterate_succ_apply, hnext]
        exact Closing.iterate (m := ⟨.poised, c.requestExit, log, s⟩) rfl k
  | between busy | poised =>
    refine Closing.iterate ?_ k
    show (c.exitRequested || w.asked s) = true
    rw [Bool.or_eq_true]
    exact h
  | leaving result | gone result =>
    refine Closing.iterate ?_ k
    exact trivial

end Contract

theorem fresh_of_connect {w : Station σ} {uid : WorkerId} {settings : Settings} {s₀ s : σ}
    {c : Context} (h : connect w uid settings s₀ = (.ok c, s)) :
    c.record.tasks = 0 ∧ c.exitRequested = false := by
  unfold connect at h
  split at h
  · cases h
  · cases h
    exact ⟨rfl, rfl⟩

/-- A run starts the service first and once, and if it comes to an end, it
stops the service last and once, whatever fails.  In between there are only
steps and messages, the command to stop is not among them, and under a limit no
more steps complete a task than it allows.  From the moment on in which an
exit was asked for, the command to stop is dispatched, or the worker looks and
finds that it was asked to stop, there is no other callback but the end. -/
theorem callbacks_keep_contract {service : Service σ} (hservice : service.Discreet)
    {w : Station σ} {uid : WorkerId} {settings : Settings} {s₀ s : σ} {c : Context}
    (hconnect : connect w uid settings s₀ = (.ok c, s)) (n : Nat) :
    let out := run w.beside service.noted settings n c ([], s)
    let moment := fun k => (next w.beside service.noted settings)^[k] ⟨.starting, c, [], s⟩
    bare out = run w service settings n c s ∧
      (∃ work, out.2.2.1 = .start :: work ++ (if out.1.isSome then [.stop] else []) ∧
        (∀ call ∈ work, call.Works) ∧
        (settings.maxTasks ≠ 0 → work.countP Call.finishes ≤ settings.maxTasks.toNat)) ∧
      (∃ k stage, moment k = ⟨stage, out.2.1, out.2.2⟩ ∧ stage.EndsRun out.1) ∧
      ∀ i, Resigns w.beside (moment i) → ∀ j,
        OnlyStops (moment i).world.1 (moment (i + j)).world.1 := by
  intro out moment
  obtain ⟨htasks, hexit⟩ := fresh_of_connect hconnect
  have horderly : ∀ k, Orderly settings.maxTasks (moment k) :=
    Orderly.iterate hservice (m := ⟨.starting, c, [], s⟩) ⟨rfl, htasks, hexit⟩
  obtain ⟨stage, hstage, k, hk⟩ := run_reaches w.beside service.noted settings n c ([], s)
  refine ⟨run_noted w service settings n c ([], s), ?_, ⟨k, stage, hk, hstage⟩,
    fun i hresigns j => ?_⟩
  · have hlast : Orderly settings.maxTasks ⟨stage, out.2.1, out.2.2⟩ := hk ▸ horderly k
    exact hlast.log_of_endsRun hstage
  · have hlater : moment (i + j) = (next w.beside service.noted settings)^[j] (moment i) := by
      rw [Nat.add_comm]
      exact Function.iterate_add_apply _ _ _ _
    rw [hlater]
    exact hresigns.iterate (horderly i) j

/-- A service that finishes a task in every step. -/
def diligent : Service (Nat × Poll.Script) where
  step c s := (.ok .finished, c, s)

/-- A worker that may finish two tasks. -/
theorem callbacks_keep_contract_two_tasks :
    let w : Station (Nat × Poll.Script) := { host := Bus.dialing, asked := fun _ => false }
    let settings : Settings := ⟨"diligent", .v4 ⟨127, 0, 0, 1⟩ 4000, 2, .zero⟩
    ∃ c s, connect w ⟨2⟩ settings (0, { room := 1000 }) = (.ok c, s) ∧
      let out := run w.beside diligent.noted settings 5 c ([], s)
      out.1 = some (.ok 0) ∧
        ∃ work, out.2.2.1 = .start :: work ++ [.stop] ∧ (∀ call ∈ work, call.Works) ∧
          work.countP Call.finishes ≤ 2 := by
  intro w settings
  let c : Context := { record := .create 0 ⟨2⟩ "diligent" 0, link := { uid := ⟨2⟩, stream := ⟨7⟩ } }
  let s : Nat × Poll.Script := (0, { room := 998 })
  have hconnect : connect w ⟨2⟩ settings (0, { room := 1000 }) = (.ok c, s) := by decide +kernel
  have hdiscreet : diligent.Discreet :=
    ⟨fun _ _ => ⟨rfl, id⟩, fun _ _ => ⟨rfl, id⟩, fun _ _ _ => ⟨rfl, id⟩⟩
  have hout : (run w.beside diligent.noted settings 5 c ([], s)).1 = some (.ok 0) := by
    decide +kernel
  obtain ⟨_, ⟨work, hlog, hworks, hcount⟩, _, _⟩ := callbacks_keep_contract hdiscreet hconnect 5
  rw [hout] at hlog
  exact ⟨c, s, hconnect, hout, work, hlog, hworks, hcount (by decide)⟩

end Supervisor.Worker
