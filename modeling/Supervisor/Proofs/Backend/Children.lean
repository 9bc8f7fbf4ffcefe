import Supervisor.Proofs.Backend.Fork
import Supervisor.Sim.Script

/-!
# The children a forking backend knows

`record` raises events and writes down, beside each of them, what the system
calls told about processes.  `children_recorded` reads the backend's children
off that history: the processes forked and neither reaped since nor reported
as vanished since.  What a turn of the control loop reports follows from the
children alone.

A signal that finds nobody counts for the worker it was meant for.  This is
not the same as for the process it was sent to, because an id that is no pid
has a process, too: `alias_keeps_child` is a run in which a signal for such an
id finds a child gone, and the child stays.
-/

namespace Supervisor.Backend

open Lifecycle (Bus Event Reaction)

variable {σ : Type}

/-! ## What the calls tell -/

/-- What a call tells about the life of a process. -/
inductive Notice where
  | forked (pid : Int32)
  | reaped (pid : Int32) (code : Option Int32)
  /-- A signal finds nobody. -/
  | vanished (pid : Int32)
deriving DecidableEq, Repr

/-- Answers that are noted as they are given. -/
def Reaping.noted (log : List Notice) : Reaping σ → Reaping (σ × List Notice)
  | .child pid code next => .child pid code (next.noted (log ++ [.reaped pid code]))
  | .nobody s => .nobody (s, log)
  | .failed s => .failed (s, log)

/-- The calls, with a log of what they tell. -/
def ProcessCalls.noted (calls : ProcessCalls σ) : ProcessCalls (σ × List Notice) where
  fork settings x :=
    match calls.fork settings x.1 with
    | (.ok pid, s) => (.ok pid, s, x.2 ++ [.forked pid])
    | (.error failure, s) => (.error failure, s, x.2)
  kill pid signal x :=
    match calls.kill pid signal x.1 with
    | (.nobody, s) => (.nobody, s, x.2 ++ [.vanished pid])
    | (delivered, s) => (delivered, s, x.2)
  reap x := (calls.reap x.1).noted x.2
  parent x := calls.parent x.1

namespace Fork

theorem settle_noted (answers : Reaping σ) (log : List Notice) (children : Table .worker Unit) :
    settle children (answers.noted log) =
      ((settle children answers).1, (settle children answers).2.1, (settle children answers).2.2,
        log ++ answers.exits.map fun x => .reaped x.1 x.2) := by
  induction answers generalizing log children with
  | nobody s => simp [Reaping.noted, Reaping.exits, settle]
  | failed s => simp [Reaping.noted, Reaping.exits, settle]
  | child pid code next ih =>
    rw [Reaping.noted, Reaping.exits, List.map_cons]
    by_cases hknown : children.contains (workerOf pid) = true
    · rw [settle_child_of_known hknown, settle_child_of_known hknown, ih]
      simp
    · rw [settle_child_of_unknown hknown, settle_child_of_unknown hknown, ih]
      simp

/-- Noting what the calls tell changes nothing else. -/
theorem react_noted (calls : ProcessCalls σ) (e : Event) (f : Fork) (s : σ) (log : List Notice) :
    ((react calls.noted e (f, s, log)).2.1, (react calls.noted e (f, s, log)).2.2.1) =
      (react calls e (f, s)).2 := by
  cases e with
  | workerCreate settings =>
    simp only [react, create, ProcessCalls.noted]
    rcases calls.fork settings s with ⟨_ | _, s'⟩ <;> rfl
  | workerTerminate uid hard =>
    simp only [react, terminate, ProcessCalls.noted]
    rcases calls.kill (processOf uid) (if hard then .kill else .interrupt) s with ⟨_ | _ | _, s'⟩ <;>
      rfl
  | schedulerLoop => simp only [react, loop, ProcessCalls.noted, settle_noted]
  | kernelStart => rfl
  | schedulerStart | schedulerStop | workerCreated | workerInit | workerLoop | workerExit
  | workerTerminated => rfl

theorem log_of_forked {calls : ProcessCalls σ} {settings : Worker.Settings} {pid : Int32}
    {x y : σ × List Notice} (h : calls.noted.fork settings x = (.ok pid, y)) :
    y.2 = x.2 ++ [.forked pid] := by
  simp only [ProcessCalls.noted] at h
  split at h <;> cases h
  rfl

theorem log_of_not_forked {calls : ProcessCalls σ} {settings : Worker.Settings} {failure : Failure}
    {x y : σ × List Notice} (h : calls.noted.fork settings x = (.error failure, y)) :
    y.2 = x.2 := by
  simp only [ProcessCalls.noted] at h
  split at h <;> cases h
  rfl

theorem log_of_vanished {calls : ProcessCalls σ} {pid : Int32} {signal : Signal}
    {x y : σ × List Notice} (h : calls.noted.kill pid signal x = (.nobody, y)) :
    y.2 = x.2 ++ [.vanished pid] := by
  simp only [ProcessCalls.noted] at h
  split at h
  · cases h
    rfl
  · rename_i hnot _
    cases h
    exact (hnot rfl).elim

theorem log_of_signalled {calls : ProcessCalls σ} {pid : Int32} {signal : Signal}
    {delivered : Delivered} {x y : σ × List Notice}
    (h : calls.noted.kill pid signal x = (delivered, y)) (hsome : delivered ≠ .nobody) :
    y.2 = x.2 := by
  simp only [ProcessCalls.noted] at h
  split at h
  · cases h
    exact absurd rfl hsome
  · cases h
    rfl

end Fork

/-! ## Histories -/

/-- A notice and the event during which it was given. -/
structure Entry where
  event : Event
  notice : Notice

namespace Entry

/-- The process is reaped. -/
def Reaps (pid : Int32) (x : Entry) : Prop :=
  ∃ code, x.notice = .reaped pid code

/-- The process is reaped, or a signal for its own worker finds nobody. -/
def Closes (pid : Int32) (x : Entry) : Prop :=
  x.Reaps pid ∨
    (∃ hard, x.event = .workerTerminate (workerOf pid) hard) ∧ x.notice = .vanished pid

/-- The process is reaped, or a signal that is sent to it finds nobody. -/
def Ends (pid : Int32) (x : Entry) : Prop :=
  x.Reaps pid ∨ x.notice = .vanished pid

@[simp] theorem closes_forked (pid pid' : Int32) (e : Event) :
    ¬ (⟨e, .forked pid'⟩ : Entry).Closes pid := by
  rintro (⟨_, h⟩ | ⟨_, h⟩) <;> cases h

@[simp] theorem closes_reaped (pid pid' : Int32) (e : Event) (code : Option Int32) :
    (⟨e, .reaped pid' code⟩ : Entry).Closes pid ↔ pid' = pid := by
  constructor
  · rintro (⟨_, h⟩ | ⟨_, h⟩) <;> cases h
    rfl
  · rintro rfl
    exact Or.inl ⟨code, rfl⟩

@[simp] theorem closes_vanished (pid pid' : Int32) (uid : WorkerId) (hard : Bool) :
    (⟨.workerTerminate uid hard, .vanished pid'⟩ : Entry).Closes pid ↔
      uid = workerOf pid ∧ pid' = pid := by
  constructor
  · rintro (⟨_, h⟩ | ⟨⟨_, huid⟩, h⟩)
    · cases h
    · cases huid
      cases h
      exact ⟨rfl, rfl⟩
  · rintro ⟨rfl, rfl⟩
    exact Or.inr ⟨⟨hard, rfl⟩, rfl⟩

end Entry

/-- The process was forked, and no later entry is of the given kind. -/
def ForkedSince (kind : Int32 → Entry → Prop) (pid : Int32) (history : List Entry) : Prop :=
  ∃ earlier e later,
    history = earlier ++ ⟨e, .forked pid⟩ :: later ∧ ∀ x ∈ later, ¬ kind pid x

/-- No pid is given out while a child with that pid has not been reaped. -/
def FreshForks (history : List Entry) : Prop :=
  ∀ earlier e pid later,
    history = earlier ++ ⟨e, .forked pid⟩ :: later → ¬ ForkedSince Entry.Reaps pid earlier

section Histories

variable {kind : Int32 → Entry → Prop} {pid : Int32}

theorem not_forkedSince_nil : ¬ ForkedSince kind pid [] := by
  rintro ⟨earlier, e, later, h, _⟩
  cases earlier <;> cases h

theorem forkedSince_append_forked (history : List Entry) (e : Event) :
    ForkedSince kind pid (history ++ [⟨e, .forked pid⟩]) :=
  ⟨history, e, [], rfl, fun _ hx => absurd hx List.not_mem_nil⟩

theorem ForkedSince.append {history more : List Entry} (h : ForkedSince kind pid history)
    (hmore : ∀ x ∈ more, ¬ kind pid x) : ForkedSince kind pid (history ++ more) := by
  obtain ⟨earlier, e, later, rfl, hlater⟩ := h
  refine ⟨earlier, e, later ++ more, by simp, fun x hx => ?_⟩
  rcases List.mem_append.mp hx with hx | hx
  · exact hlater x hx
  · exact hmore x hx

theorem ForkedSince.exists_forked {history : List Entry} (h : ForkedSince kind pid history) :
    ∃ x ∈ history, x.notice = .forked pid := by
  obtain ⟨earlier, e, later, rfl, _⟩ := h
  exact ⟨_, List.mem_append_right _ List.mem_cons_self, rfl⟩

/-- Pids are fresh if none is given out twice. -/
theorem freshForks_of_pairwise {history : List Entry}
    (h : history.Pairwise fun x y => ∀ pid, x.notice = .forked pid → y.notice ≠ .forked pid) :
    FreshForks history := by
  rintro earlier e pid later rfl hsince
  obtain ⟨x, hx, hforked⟩ := hsince.exists_forked
  exact (List.pairwise_append.mp h).2.2 x hx _ List.mem_cons_self pid hforked rfl

/-- Entries that do not fork the process only count by their kind. -/
theorem forkedSince_append {more : List Entry} (h : ∀ x ∈ more, x.notice ≠ .forked pid)
    (history : List Entry) :
    ForkedSince kind pid (history ++ more) ↔
      ForkedSince kind pid history ∧ ∀ x ∈ more, ¬ kind pid x := by
  constructor
  · rintro ⟨earlier, e, later, heq, hlater⟩
    -- The fork stands in the history, since none of the new entries is one.
    have hfork : ∀ fork : Entry, fork ∈ more → fork ≠ ⟨e, .forked pid⟩ := by
      rintro fork hfork rfl
      exact h _ hfork rfl
    rcases List.append_eq_append_iff.mp heq with ⟨between, rfl, hmore⟩ | ⟨between, rfl, hlast⟩
    · exact absurd rfl (hfork _ (hmore ▸ List.mem_append_right _ List.mem_cons_self))
    · cases between with
      | nil =>
        rw [List.nil_append] at hlast
        exact absurd rfl (hfork _ (hlast ▸ List.mem_cons_self))
      | cons fork between =>
        rw [List.cons_append, List.cons.injEq] at hlast
        obtain ⟨rfl, rfl⟩ := hlast
        exact ⟨⟨earlier, e, between, rfl, fun x hx => hlater x (List.mem_append_left _ hx)⟩,
          fun x hx => hlater x (List.mem_append_right _ hx)⟩
  · rintro ⟨hsince, hmore⟩
    exact hsince.append hmore

/-- A child that is reported as vanished is not forked again before it is
reaped. -/
theorem not_forkedSince_of_vanished {earlier later : List Entry} {hard : Bool}
    (hfresh : FreshForks (earlier ++ ⟨.workerTerminate (workerOf pid) hard, .vanished pid⟩ :: later))
    (hchild : ForkedSince Entry.Reaps pid earlier) (hlater : ∀ x ∈ later, ¬ x.Reaps pid) :
    ¬ ForkedSince Entry.Closes pid
      (earlier ++ ⟨.workerTerminate (workerOf pid) hard, .vanished pid⟩ :: later) := by
  have hnone : ∀ x ∈ ⟨.workerTerminate (workerOf pid) hard, .vanished pid⟩ :: later,
      ¬ x.Reaps pid := by
    rw [List.forall_mem_cons]
    exact ⟨fun ⟨_, hreaped⟩ => (nomatch hreaped), hlater⟩
  intro hsince
  rw [forkedSince_append] at hsince
  · exact hsince.2 _ List.mem_cons_self ((Entry.closes_vanished _ _ _ _).mpr ⟨rfl, rfl⟩)
  · rintro ⟨e, _⟩ hx rfl
    obtain ⟨before, after, heq⟩ := List.append_of_mem hx
    refine hfresh (earlier ++ before) e pid after (by rw [heq, List.append_assoc])
      (hchild.append fun x hx => hnone x ?_)
    rw [heq]
    exact List.mem_append_left _ hx

end Histories

/-! ## The children -/

/-- The children are those that the history leaves. -/
def Tracks (f : Fork) (history : List Entry) : Prop :=
  ∀ uid, f.children.contains uid = true ↔
    ∃ pid, uid = workerOf pid ∧ ForkedSince Entry.Closes pid history

theorem tracks_empty : Tracks .empty [] := by
  intro uid
  refine iff_of_false (fun h => nomatch h) ?_
  rintro ⟨pid, _, hsince⟩
  exact not_forkedSince_nil hsince

/-- Entries without a fork take children away, those that they close. -/
theorem Tracks.append {f f' : Fork} {history more : List Entry} (h : Tracks f history)
    (hforks : ∀ x ∈ more, ∀ pid, x.notice ≠ .forked pid)
    (hcontains : ∀ uid, f'.children.contains uid = true ↔
      f.children.contains uid = true ∧ ∀ pid, uid = workerOf pid → ∀ x ∈ more, ¬ x.Closes pid) :
    Tracks f' (history ++ more) := by
  intro uid
  rw [hcontains, h]
  constructor
  · rintro ⟨⟨pid, rfl, hsince⟩, hmore⟩
    exact ⟨pid, rfl, hsince.append (hmore pid rfl)⟩
  · rintro ⟨pid, rfl, hsince⟩
    rw [forkedSince_append fun x hx => hforks x hx pid] at hsince
    refine ⟨⟨pid, rfl, hsince.1⟩, fun pid' hpid => ?_⟩
    rw [← workerOf_injective hpid]
    exact hsince.2

theorem Tracks.append_forked {f : Fork} {history : List Entry} (h : Tracks f history) (e : Event)
    (pid : Int32) :
    Tracks { f with children := f.children.insert (workerOf pid) () }
      (history ++ [⟨e, .forked pid⟩]) := by
  intro uid
  rw [Table.contains_insert, h]
  constructor
  · rintro (rfl | ⟨pid', rfl, hsince⟩)
    · exact ⟨pid, rfl, forkedSince_append_forked history e⟩
    · refine ⟨pid', rfl, hsince.append fun x hx hcloses => ?_⟩
      rw [List.mem_singleton.mp hx] at hcloses
      exact Entry.closes_forked _ _ _ hcloses
  · rintro ⟨pid', rfl, hsince⟩
    by_cases hpid : pid' = pid
    · exact Or.inl (hpid ▸ rfl)
    · refine Or.inr ⟨pid', rfl, ((forkedSince_append ?_ history).mp hsince).1⟩
      intro x hx hforked
      rw [List.mem_singleton.mp hx] at hforked
      cases hforked
      exact hpid rfl

/-- A signal that finds nobody takes away the child that it was meant for. -/
theorem Tracks.append_vanished {f : Fork} {history : List Entry} (h : Tracks f history)
    (uid : WorkerId) (hard : Bool) :
    Tracks { f with children := f.children.erase uid }
      (history ++ [⟨.workerTerminate uid hard, .vanished (processOf uid)⟩]) := by
  refine h.append (by simp) (fun uid' => ?_)
  rw [Table.contains_erase, and_comm]
  refine and_congr_right fun hknown => ?_
  simp only [List.forall_mem_singleton, Entry.closes_vanished]
  constructor
  · rintro hne pid rfl ⟨rfl, _⟩
    exact hne rfl
  · -- A known child is the worker of a pid, so the signal went to that very process.
    rintro hopen rfl
    obtain ⟨pid, rfl, _⟩ := (h uid').mp hknown
    exact hopen pid rfl ⟨rfl, processOf_workerOf pid⟩

theorem Tracks.append_reaped {f f' : Fork} {history : List Entry} (h : Tracks f history)
    (e : Event) {exits : List (Int32 × Option Int32)}
    (hcontains : ∀ uid, f'.children.contains uid = true ↔
      f.children.contains uid = true ∧ ∀ x ∈ exits, workerOf x.1 ≠ uid) :
    Tracks f' (history ++ exits.map fun x => ⟨e, .reaped x.1 x.2⟩) := by
  refine h.append ?_ (fun uid => ?_)
  · rw [List.forall_mem_map]
    rintro x _ pid ⟨⟩
  · rw [hcontains]
    refine and_congr_right fun _ => ?_
    simp only [List.forall_mem_map, Entry.closes_reaped]
    constructor
    · rintro hleft pid rfl x hx rfl
      exact hleft x hx rfl
    · rintro hopen x hx rfl
      exact hopen x.1 rfl x hx rfl

theorem Tracks.react {f : Fork} {history : List Entry} (h : Tracks f history)
    (calls : ProcessCalls σ) (e : Event) (s : σ) :
    Tracks (Fork.react calls.noted e (f, s, [])).2.1
      (history ++ (Fork.react calls.noted e (f, s, [])).2.2.2.map (Entry.mk e)) := by
  have hstep := Fork.step_react calls.noted e f (s, [])
  generalize Fork.react calls.noted e (f, s, []) = out at hstep
  cases hstep with
  | forked hfork =>
    rw [Fork.log_of_forked hfork]
    exact h.append_forked _ _
  | notForked hfork =>
    rw [Fork.log_of_not_forked hfork]
    simpa using h
  | vanished hkill =>
    rw [Fork.log_of_vanished hkill]
    exact h.append_vanished _ _
  | signalled hkill hsome =>
    rw [Fork.log_of_signalled hkill hsome]
    simpa using h
  | started =>
    rw [List.map_nil, List.append_nil]
    exact h
  | ignored => simpa using h
  | looped hsettle =>
    have hnoted := Fork.settle_noted (calls.reap s) [] f.children
    rw [show (calls.reap s).noted [] = calls.noted.reap (s, []) from rfl, hsettle] at hnoted
    cases hnoted
    rw [List.nil_append, List.map_map]
    exact h.append_reaped .schedulerLoop fun uid => Fork.contains_settle uid _ _

/-! ## Runs -/

namespace Fork

/-- Raises events one after the other and writes down what the calls tell
during each of them. -/
def record (calls : ProcessCalls σ) : List Event → Fork × σ → List Entry × Fork × σ
  | [], x => ([], x)
  | e :: events, (f, s) =>
    let (f', s', log) := ((bus calls.noted).raise e (f, s, [])).2
    let (entries, x) := record calls events (f', s')
    (log.map (Entry.mk e) ++ entries, x)

theorem record_cons (calls : ProcessCalls σ) (e : Event) (events : List Event) (x : Fork × σ) :
    record calls (e :: events) x =
      ((Fork.react calls.noted e (x.1, x.2, [])).2.2.2.map (Entry.mk e) ++
          (record calls events (Fork.react calls e x).2).1,
        (record calls events (Fork.react calls e x).2).2) := by
  rw [← react_noted calls e x.1 x.2 []]
  simp only [record, raise_bus_snd]

theorem record_snd (calls : ProcessCalls σ) (events : List Event) (x : Fork × σ) :
    (record calls events x).2 = (bus calls).raiseAll events x := by
  induction events generalizing x with
  | nil => rfl
  | cons e events ih =>
    rw [record_cons, Bus.raiseAll, List.foldl_cons, raise_bus_snd]
    exact ih _

/-- What a turn of the control loop reports: each child that is named once,
with the code of the first answer that names it, and nobody else. -/
theorem dispatch_schedulerLoop (calls : ProcessCalls σ) (x : Fork × σ) :
    ∃ emitted, ((bus calls).dispatch .schedulerLoop x).1 = .ok emitted ∧
      ∀ uid, reported uid emitted =
        if x.1.children.contains uid then
          (((calls.reap x.2).exits.find? fun y => workerOf y.1 = uid).map (·.2)).toList
        else [] := by
  refine ⟨(loop calls x.1 x.2).1.emitted, ?_, fun uid => ?_⟩
  · rw [dispatch_bus]
    rfl
  · simp only [loop]
    rw [reported_append, reported_checkParent, List.append_nil, reported_settle]

end Fork

theorem Tracks.record {calls : ProcessCalls σ} {x : Fork × σ} {history : List Entry}
    (h : Tracks x.1 history) (events : List Event) :
    Tracks (Fork.record calls events x).2.1 (history ++ (Fork.record calls events x).1) := by
  induction events generalizing x history with
  | nil => simpa [Fork.record] using h
  | cons e events ih =>
    have hreact := h.react calls e x.2
    rw [show (Fork.react calls.noted e (x.1, x.2, [])).2.1 = (Fork.react calls e x).2.1 from
      congrArg Prod.fst (Fork.react_noted calls e x.1 x.2 [])] at hreact
    rw [Fork.record_cons, ← List.append_assoc]
    exact ih hreact

/-- After any events, the children are the processes forked and neither reaped
since nor reported as vanished since.  The next turn of the control loop
reports the children that are named, once each, and no foreign process.  A
child that is reported as vanished is not reported when it is reaped later,
provided that a pid is not given out again before that. -/
theorem children_recorded (calls : ProcessCalls σ) (events : List Event) (s : σ) :
    let run := Fork.record calls events (.empty, s)
    let children := run.2.1.children
    run.2 = (Fork.bus calls).raiseAll events (.empty, s) ∧
      (∀ uid, children.contains uid = true ↔
        ∃ pid, uid = workerOf pid ∧ ForkedSince Entry.Closes pid run.1) ∧
      ∃ emitted, ((Fork.bus calls).dispatch .schedulerLoop run.2).1 = .ok emitted ∧
        (∀ uid, reported uid emitted =
          if children.contains uid then
            (((calls.reap run.2.2).exits.find? fun x => workerOf x.1 = uid).map (·.2)).toList
          else []) ∧
        (FreshForks run.1 → ∀ earlier later pid hard,
          run.1 = earlier ++ ⟨.workerTerminate (workerOf pid) hard, .vanished pid⟩ :: later →
          ForkedSince Entry.Reaps pid earlier → (∀ x ∈ later, ¬ x.Reaps pid) →
          reported (workerOf pid) emitted = []) := by
  intro run children
  have hempty : Tracks (Fork.empty, s).1 [] := tracks_empty
  have htracks : Tracks run.2.1 run.1 := hempty.record events
  obtain ⟨emitted, hemitted, hreported⟩ := Fork.dispatch_schedulerLoop calls run.2
  refine ⟨Fork.record_snd calls events _, htracks, emitted, hemitted, hreported, ?_⟩
  intro hfresh earlier later pid hard heq hchild hlater
  rw [hreported, if_neg]
  rw [htracks]
  rintro ⟨pid', hpid, hsince⟩
  obtain rfl := workerOf_injective hpid
  rw [heq] at hfresh hsince
  exact not_forkedSince_of_vanished hfresh hchild hlater hsince

/-- Two children are forked, and a signal finds the first gone.  The loop then
reaps both, and a foreign process, before a call fails. -/
theorem children_recorded_vanished :
    let script : Sim.Processes :=
      { forks := [some 100, some 101], kills := [.nobody]
        reaps := [.child 100 none, .child 7 (some 0), .child 101 (some 3), .failure] }
    let settings : Worker.Settings := ⟨"echo", .loopback, 0, .ofMillis 10⟩
    let run := Fork.record Sim.Processes.calls
      [.workerCreate settings, .workerCreate settings, .workerTerminate (workerOf 100) false]
      (.empty, script)
    FreshForks run.1 ∧ run.2.1.children.keys = [workerOf 101] ∧
      ∃ emitted, ((Fork.bus Sim.Processes.calls).dispatch .schedulerLoop run.2).1 = .ok emitted ∧
        reported (workerOf 100) emitted = [] ∧ reported (workerOf 101) emitted = [some 3] := by
  intro script settings run
  have hhistory : run.1 = [⟨.workerCreate settings, .forked 100⟩,
      ⟨.workerCreate settings, .forked 101⟩,
      ⟨.workerTerminate (workerOf 100) false, .vanished 100⟩] := by
    show (Fork.record _ _ _).1 = _
    simp only [Fork.record_cons]
    rfl
  have hfresh : FreshForks run.1 := by
    rw [hhistory]
    exact freshForks_of_pairwise (by simp)
  have hkeys : run.2.1.children.keys = [workerOf 101] := by
    show (Fork.record _ _ _).2.1.children.keys = _
    simp only [Fork.record_cons]
    rfl
  have hexits : (Sim.Processes.calls.reap run.2.2).exits =
      [(100, none), (7, some 0), (101, some 3)] := by
    show (Sim.Processes.calls.reap (Fork.record _ _ _).2.2).exits = _
    simp only [Fork.record_cons]
    rfl
  obtain ⟨_, _, emitted, hemitted, hreported, hvanished⟩ :=
    children_recorded Sim.Processes.calls
      [.workerCreate settings, .workerCreate settings, .workerTerminate (workerOf 100) false] script
  refine ⟨hfresh, hkeys, emitted, hemitted, ?_, ?_⟩
  · refine hvanished hfresh [_, _] [] 100 false hhistory ?_ (by simp)
    exact ⟨[], _, [_], rfl, by simp [Entry.Reaps]⟩
  · have hknown : run.2.1.children.contains (workerOf 101) = true := by
      rw [Table.contains_iff, hkeys]
      exact List.mem_singleton.mpr rfl
    rw [hreported, if_pos hknown, hexits]
    rfl

/-- A signal for an id that is no pid finds a child gone, and the child stays:
it is not true that a child leaves whenever a signal that is sent to it finds
nobody. -/
theorem alias_keeps_child :
    let settings : Worker.Settings := ⟨"echo", .loopback, 0, .ofMillis 10⟩
    let run := Fork.record Sim.Processes.calls
      [.workerCreate settings, .workerTerminate ⟨4294967396⟩ false]
      (.empty, { forks := [some 100], kills := [.nobody] })
    FreshForks run.1 ∧
      ¬ ∀ uid, run.2.1.children.contains uid = true ↔
        ∃ pid, uid = workerOf pid ∧ ForkedSince Entry.Ends pid run.1 := by
  intro settings run
  have hhistory : run.1 = [⟨.workerCreate settings, .forked 100⟩] ++
      [⟨.workerTerminate ⟨4294967396⟩ false, .vanished 100⟩] := by
    show (Fork.record _ _ _).1 = _
    simp only [Fork.record_cons]
    rfl
  have hchild : run.2.1.children.contains (workerOf 100) = true := by
    show (Fork.record _ _ _).2.1.children.contains _ = _
    simp only [Fork.record_cons]
    rfl
  refine ⟨?_, fun hliteral => ?_⟩
  · rw [hhistory]
    exact freshForks_of_pairwise (by simp)
  · obtain ⟨pid, hpid, hsince⟩ := (hliteral _).mp hchild
    obtain rfl := workerOf_injective hpid
    rw [hhistory, forkedSince_append (by simp)] at hsince
    exact hsince.2 _ List.mem_cons_self (Or.inr rfl)

end Supervisor.Backend
