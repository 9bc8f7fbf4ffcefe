import Supervisor.Proofs.Scheduler.Calls
import Supervisor.Sim.Crew

/-!
# The pid lock of a scheduler

A start takes the pid lock and then tries to open the bus, and a stop goes by
the bus to see whether there is anything to stop.  A start that cannot open
the bus comes between the two.

* `Grip` says what a scheduler holds in terms of its past starts, and `Guard`
  says what then stands in its pid file.  `Reachable.grip` and
  `Reachable.guard` prove this for all runs, by the cases of a single call.
* `stop_gives_up_lock_iff`: a stop that succeeds gives up everything, but for
  a lock that the last start took in vain.
* `names_owner_iff`: the pid file of a running scheduler names it, unless the
  bus was opened right after an attempt in vain.  Then the scheduler already
  had a lock, and forgot it with the file.
-/

namespace Supervisor.Scheduler

open Bus (Routing)

variable {σ : Type} {p : Premises σ} {others : σ → σ → Prop} {past : List Bool}
variable {c : Scheduler} {s : σ}

/-! ## What a scheduler holds -/

/-- What a scheduler with these starts behind it holds: all of it, the lock
alone, or nothing. -/
inductive Grip (past : List Bool) (c : Core) : Prop where
  | all : c.ipc ≠ none → past[0]? = some true → c.lock = some ⟨false⟩ → Grip past c
  | lock : c.ipc = none → past[0]? = some false → c.lock = some ⟨false⟩ →
      c.workers.size = 0 → Grip past c
  | nothing : c.ipc = none → past[0]? ≠ some false → c.lock = none →
      c.workers.size = 0 → Grip past c

theorem Grip.of_open (h : Grip past c.core) (hopen : c.core.ipc ≠ none) :
    past[0]? = some true ∧ c.core.lock = some ⟨false⟩ := by
  cases h with
  | all _ hpast hlock => exact ⟨hpast, hlock⟩
  | lock hclosed | nothing hclosed => exact absurd hclosed hopen

theorem Grip.of_closed (h : Grip past c.core) (hclosed : c.core.ipc = none) :
    c.core.workers.size = 0 ∧
      c.core.lock = if past[0]? = some false then some ⟨false⟩ else none := by
  cases h with
  | all hopen => exact absurd hclosed hopen
  | lock _ hpast hlock hempty =>
    rw [if_pos hpast]
    exact ⟨hempty, hlock⟩
  | nothing _ hpast hlock hempty =>
    rw [if_neg hpast]
    exact ⟨hempty, hlock⟩

theorem Grip.frame {K : σ → Prop} {x y : Core × σ} (h : Grip past x.1) (hf : Core.Frame K x y) :
    Grip past y.1 := by
  cases h with
  | all hopen hpast hlock => exact .all (hf.opened hopen) hpast (hf.lock.trans hlock)
  | lock hclosed hpast hlock hempty =>
    exact .lock (hf.closed hclosed) hpast (hf.lock.trans hlock) (hf.empty hclosed hempty)
  | nothing hclosed hpast hlock hempty =>
    exact .nothing (hf.closed hclosed) hpast (hf.lock.trans hlock) (hf.empty hclosed hempty)

theorem Grip.start (h : Grip past c.core) :
    Grip ((c.opening? p s).toList ++ past) (c.start p s).2.1.core := by
  have hstart := start_cases p.spares_true c s
  generalize c.opening? p s = attempt at hstart ⊢
  generalize c.start p s = out at hstart ⊢
  cases hstart with
  | serving _ | refused _ => exact h
  | stranded hclosed =>
    refine .lock hclosed rfl rfl ?_
    exact (h.of_closed hclosed).1
  | opened hclosed hframe =>
    exact .all (hframe.opened (Option.some_ne_none _)) rfl hframe.lock

theorem Grip.stop (h : Grip past c.core) : Grip past (c.stop p s).2.1.core := by
  by_cases hclosed : c.core.ipc = none
  · rw [stop_of_closed hclosed]
    exact h
  · obtain ⟨core, reactor, s', hbus, hempty, _, hstop⟩ := stop_of_open (p := p) hclosed s
    have hpast : past[0]? ≠ some false := by
      rw [(h.of_open hclosed).1]
      decide
    rw [hstop]
    dsimp only
    rw [core_unlockPid]
    exact .nothing hbus hpast rfl hempty

theorem Grip.perform (h : Grip past c.core) (call : Call) :
    Grip ((call.opening? p c s).toList ++ past) (call.perform p c s).2.1.core := by
  have hwork (hstart : call ≠ .start) (hstop : call ≠ .stop) :=
    h.frame (Call.frame p.spares_true hstart hstop c s)
  cases call with
  | start => exact h.start
  | stop => exact h.stop
  | tick | send | takeMessages => exact hwork (by simp) (by simp)

theorem Reachable.grip (h : Reachable p others past c s) : Grip past c.core := by
  induction h with
  | created s hcreate =>
    rw [(create_eq_ok hcreate).2]
    exact .nothing rfl (by simp) rfl rfl
  | called call _ ih => exact ih.perform call
  | meanwhile _ _ ih => exact ih

/-- A stop that succeeds gives up the workers and the bus, and the pid lock
with its file.  Only a bus that is closed already keeps it from anything, and
then there is a lock left exactly if the last start that took the lock could
not open the bus. -/
theorem stop_gives_up_lock_iff (hfile : ∀ n s, p.lockFile (p.setLockFile n s) = n)
    (h : Reachable p (fun _ _ => True) past c s) (hok : (c.stop p s).1 = .ok ()) :
    let out := (c.stop p s).2
    out.1.core.workers.size = 0 ∧ out.1.core.ipc = none ∧
      (out.1.core.lock = none ↔ past[0]? ≠ some false) ∧
      (c.core.ipc ≠ none → p.lockFile out.2 = .nothing ∨ p.lockFile out.2 = .noParent) ∧
      (c.core.ipc = none → out = (c, s)) := by
  intro out
  by_cases hclosed : c.core.ipc = none
  · have hout : out = (c, s) := congrArg Prod.snd (stop_of_closed hclosed s)
    obtain ⟨hempty, hlock⟩ := h.grip.of_closed hclosed
    rw [hout]
    refine ⟨hempty, hclosed, ?_, fun hopen => absurd hclosed hopen, fun _ => rfl⟩
    rw [hlock]
    split
    · rename_i hpast
      simp [hpast]
    · rename_i hpast
      simp [hpast]
  · obtain ⟨core, reactor, s', hbus, hempty, hkept, hstop⟩ := stop_of_open (p := p) hclosed s
    obtain ⟨hpast, hlock⟩ := h.grip.of_open hclosed
    have hunlock : unlockPid p core s' =
        ((PidLock.release ⟨false⟩ (p.lockFile s')).1, { core with lock := none },
          p.setLockFile (PidLock.release ⟨false⟩ (p.lockFile s')).2.2 s') := by
      rw [unlockPid, hkept, hlock]
    rw [hunlock] at hstop
    have hout : out = (_, _) := congrArg Prod.snd hstop
    rw [hstop] at hok
    rw [hout]
    refine ⟨hempty, hbus, ?_, fun _ => ?_, fun h => absurd h hclosed⟩
    · simp [hpast]
    · dsimp only
      rw [hfile]
      exact PidLock.node_of_release rfl hok

/-- A pool without a backend, at an address that somebody else has for the
first two seconds. -/
def crowded : Premises (Sim.Scene × Sim.World) :=
  { Sim.Scene.premises (Config.standard ⟨"/tmp", "herd"⟩) 100 fun _ => .absent with
    host := Poll.Host.onSecond
      { Sim.World.host with
        bind := fun address shared w =>
          if w.clock < .ofSeconds 2 then (.error ⟨.other, "Address already in use"⟩, w)
          else Sim.World.bind address shared w }
    bus := .empty }

/-- The scheduler of that pool before it is started. -/
def newcomer : Scheduler :=
  ⟨{ workers := .empty 8 }, .empty crowded.config.tickInterval⟩

theorem create_crowded : create crowded.config = .ok newcomer :=
  rfl

/-- With the address free, a start and a stop leave nothing behind. -/
theorem stop_gives_up_lock_of_start :
    let s : Sim.Scene × Sim.World := ({}, { clock := .ofSeconds 2 })
    let running := (newcomer.start crowded s).2
    let out := (running.1.stop crowded running.2).2
    out.1.core.lock = none ∧ crowded.lockFile out.2 = .nothing := by
  intro s running out
  have hreached : Reachable crowded (fun _ _ => True) [true] running.1 running.2 :=
    .called .start (.created s create_crowded)
  obtain ⟨_, _, hlock, _⟩ := stop_gives_up_lock_iff (fun _ _ => rfl) hreached rfl
  exact ⟨hlock.mpr (by decide), rfl⟩

/-- With the address taken, the start fails and keeps the lock, and the stop
does nothing. -/
theorem stop_keeps_lock_of_failed_start :
    let failed := newcomer.start crowded ({}, {})
    let out := failed.2.1.stop crowded failed.2.2
    create crowded.config = .ok newcomer ∧ failed.1.isOk = false ∧ out.1 = .ok () ∧
      out.2.1.core.lock = some ⟨false⟩ ∧ crowded.lockFile out.2.2 = PidLock.claimed 100 :=
  ⟨rfl, rfl, rfl, rfl, rfl⟩

/-! ## What stands in the pid file -/

/-- Nobody but the scheduler touches its pid file. -/
structure Premises.Private (p : Premises σ) : Prop where
  written : ∀ n s, p.lockFile (p.setLockFile n s) = n
  spared : ∀ n, p.Spares fun s => p.lockFile s = n

/-- What stands in the pid file of a scheduler that has opened its bus: its
pid, unless the start before had left a lock to forget. -/
def Guard (p : Premises σ) (past : List Bool) (c : Scheduler) (s : σ) : Prop :=
  c.core.ipc ≠ none →
    p.lockFile s = if past[1]? = some false then .nothing else PidLock.claimed p.own

theorem Guard.start (hprivate : p.Private) (hgrip : Grip past c.core) (h : Guard p past c s) :
    Guard p ((c.opening? p s).toList ++ past) (c.start p s).2.1 (c.start p s).2.2 := by
  have hstart := start_cases (hprivate.spared (PidLock.renewed p.own c.core.lock)) c s
  generalize c.opening? p s = attempt at hstart ⊢
  generalize c.start p s = out at hstart ⊢
  cases hstart with
  | serving _ => exact h
  | refused hclosed | stranded hclosed => exact fun hopen => absurd hclosed hopen
  | opened hclosed hframe =>
    intro _
    rw [hframe.world (hprivate.written _ s), (hgrip.of_closed hclosed).2]
    show PidLock.renewed p.own _ = if past[0]? = some false then _ else _
    split
    · exact PidLock.renewed_of_held p.own rfl
    · rfl

theorem Guard.perform (hprivate : p.Private) (hgrip : Grip past c.core) (h : Guard p past c s)
    (call : Call) :
    Guard p ((call.opening? p c s).toList ++ past) (call.perform p c s).2.1
      (call.perform p c s).2.2 := by
  have hwork (hstart : call ≠ .start) (hstop : call ≠ .stop) :
      Guard p past (call.perform p c s).2.1 (call.perform p c s).2.2 := by
    have hframe := Call.frame (hprivate.spared (p.lockFile s)) hstart hstop c s
    intro hopen
    have hbefore : c.core.ipc ≠ none := fun hclosed => hopen (hframe.closed hclosed)
    rw [hframe.world rfl]
    exact h hbefore
  cases call with
  | start => exact h.start hprivate hgrip
  | stop => exact fun hopen => absurd (closed_of_stop c s) hopen
  | tick | send | takeMessages => exact hwork (by simp) (by simp)

theorem Reachable.guard (hprivate : p.Private)
    (hothers : ∀ {s s'}, others s s' → p.lockFile s' = p.lockFile s)
    (h : Reachable p others past c s) : Guard p past c s := by
  induction h with
  | created s hcreate =>
    rw [(create_eq_ok hcreate).2]
    exact fun hopen => absurd rfl hopen
  | called call hreached ih => exact ih.perform hprivate hreached.grip call
  | meanwhile _ hchange ih =>
    intro hopen
    rw [hothers hchange]
    exact ih hopen

/-- A start that succeeds leaves the bus open. -/
theorem open_of_start (hok : (c.start p s).1 = .ok ()) : (c.start p s).2.1.core.ipc ≠ none := by
  have hstart := start_cases p.spares_true c s
  generalize c.opening? p s = attempt at hstart
  generalize c.start p s = out at hstart hok ⊢
  cases hstart with
  | serving hopen => exact hopen
  | refused _ | stranded _ => cases hok
  | opened _ hframe => exact hframe.opened (Option.some_ne_none _)

/-- From a start that succeeds to the next stop the bus is open, and the pid
file names the scheduler unless the bus was opened right after an attempt in
vain. -/
theorem names_owner_iff {c' : Scheduler} {s' : σ} (hprivate : p.Private)
    (h : Reachable p (fun s s' => p.lockFile s' = p.lockFile s) past c s)
    (hok : (c.start p s).1 = .ok ())
    (hon : Onward p (fun s s' => p.lockFile s' = p.lockFile s)
      (c.start p s).2.1 (c.start p s).2.2 c' s') :
    c'.core.ipc ≠ none ∧
      ((p.lockFile s').owner? = some p.own ↔
        ((c.opening? p s).toList ++ past)[1]? ≠ some false) := by
  have hopen := open_of_start hok
  have hstarted := (h.called .start).guard hprivate id hopen
  have hframe := hon.frame (hprivate.spared (p.lockFile (c.start p s).2.2))
    (fun hsame hfile => hsame.trans hfile) hopen
  refine ⟨hframe.opened hopen, ?_⟩
  rw [hframe.world rfl]
  show (p.lockFile (Call.start.perform p c s).2.2).owner? = _ ↔
    ((Call.start.opening? p c s).toList ++ past)[1]? ≠ _
  rw [hstarted]
  split
  · rename_i hpast
    simp [hpast, Node.owner?, Node.readText?]
  · rename_i hpast
    simp [hpast]

theorem private_crowded : crowded.Private where
  written _ _ := rfl
  spared n := by
    refine ⟨fun hcall hfile => ?_, fun _ _ hfile => hfile, fun _ _ _ hfile => ?_,
      fun _ _ hfile => hfile, fun _ _ _ hfile => ?_⟩
    · cases hcall with
      | poll | consume | write | accept | close | roll => exact hfile
    · exact hfile
    · show (Sim.Scene.decide _ _ _ _).2.1.lockFile = n
      unfold Sim.Scene.decide
      split
      · exact hfile
      · exact hfile

/-- With the address free, the file names the scheduler after the start and a
turn. -/
theorem names_owner_of_start :
    let s : Sim.Scene × Sim.World := ({}, { clock := .ofSeconds 2 })
    let running := (newcomer.start crowded s).2
    (crowded.lockFile (running.1.tick crowded running.2).2.2).owner? = some crowded.own := by
  intro s running
  have hreached : Reachable crowded (fun s s' => crowded.lockFile s' = crowded.lockFile s) []
      newcomer s := .created s create_crowded
  have hrunning : Onward crowded (fun s s' => crowded.lockFile s' = crowded.lockFile s)
      running.1 running.2 running.1 running.2 := .refl
  have honward := hrunning.called .tick (by simp)
  rw [Call.perform] at honward
  obtain ⟨_, hnames⟩ := names_owner_iff private_crowded hreached rfl honward
  have hpast : ((newcomer.opening? crowded s).toList ++ [])[1]? = none := rfl
  rw [hpast] at hnames
  exact hnames.mpr (by simp)

/-- The first start finds the address taken and the second one finds it free.
The scheduler runs, and there is no file. -/
theorem retried_start_removes_file :
    let failed := newcomer.start crowded ({}, {})
    let later : Sim.Scene × Sim.World := (failed.2.2.1, { failed.2.2.2 with clock := .ofSeconds 2 })
    let out := failed.2.1.start crowded later
    create crowded.config = .ok newcomer ∧ failed.1.isOk = false ∧
      crowded.lockFile later = PidLock.claimed 100 ∧ out.1 = .ok () ∧
      out.2.1.core.ipc.isSome = true ∧ crowded.lockFile out.2.2 = .nothing := by
  intro failed later out
  have hfile : crowded.lockFile later = PidLock.claimed 100 := rfl
  have howner : (crowded.lockFile later).owner? = some crowded.own := by
    rw [hfile]
    exact PidLock.owner?_claimed 100
  have hlock := lockPid_of_owner (c := failed.2.1) howner
  have hrenewed : PidLock.renewed crowded.own failed.2.1.core.lock = .nothing :=
    PidLock.renewed_of_held 100 rfl
  rw [hrenewed] at hlock
  let cleared := crowded.setLockFile .nothing later
  have hout : out = match failed.2.1.locked.openBus crowded cleared with
      | (.error e, c, s) => (.error e, c, s)
      | (.ok (), c, s) => c.launch crowded s := by
    show failed.2.1.start crowded later = _
    rw [start, if_neg (by decide), hlock]
    rfl
  rw [hout]
  exact ⟨rfl, rfl, rfl, rfl, rfl, rfl⟩

end Supervisor.Scheduler
