import Supervisor.Backend.Fork
import Supervisor.Proofs.Table

/-!
# The forking backend alone on a bus

What a raise does when the forking backend is the only listener.

* `workerOf_injective`, `processOf_workerOf`: a pid and the id of its worker
  determine each other.  The converse fails: an id that is no pid has a
  process, too, the one that its low half names.
* `contains_settle`, `reported_settle`, `length_settle`: what reaping leaves
  and what it reports, for any answers of the system.
* `Step` lists all that a reaction of the backend can be, and `step_react`
  says that there is nothing else.
* `raise_bus`: the backend never reacts to what it emits.  So a raise is one
  reaction, and all that the bus adds is the limit on its follow-ups.
-/

namespace Supervisor.Lifecycle.Bus

/-- The state after raising events one after the other. -/
def raiseAll {σ : Type} (b : Bus σ) (events : List Event) (s : σ) : σ :=
  events.foldl (fun s e => (b.raise e s).2) s

end Supervisor.Lifecycle.Bus

namespace Supervisor.Backend

open Lifecycle (Bus Event Kind Reaction)

variable {σ : Type}

/-! ## Process ids -/

theorem processOf_workerOf (pid : Int32) : processOf (workerOf pid) = pid := by
  apply Int32.toBitVec_inj.mp
  show (pid.toBitVec.signExtend 64).setWidth 32 = pid.toBitVec
  ext i hi
  rw [BitVec.getElem_setWidth, BitVec.getLsbD_signExtend]
  simp [hi]
  omega

theorem workerOf_injective {p q : Int32} (h : workerOf p = workerOf q) : p = q := by
  rw [← processOf_workerOf p, h, processOf_workerOf]

/-! ## Reaping -/

/-- The children that repeated calls name, with their exit codes. -/
def Reaping.exits : Reaping σ → List (Int32 × Option Int32)
  | .child pid code next => (pid, code) :: next.exits
  | .nobody _ => []
  | .failed _ => []

/-- The exit codes with which events report the end of a worker. -/
def reported (uid : WorkerId) (events : List Event) : List (Option Int32) :=
  events.filterMap fun
    | .workerTerminated uid' code => if uid' = uid then some code else none
    | _ => none

@[simp] theorem reported_nil (uid : WorkerId) : reported uid [] = [] := rfl

theorem reported_cons_self (uid : WorkerId) (code : Option Int32) (events : List Event) :
    reported uid (.workerTerminated uid code :: events) = code :: reported uid events := by
  rw [reported, List.filterMap_cons]
  simp only [if_true]
  rfl

theorem reported_cons_of_ne {uid uid' : WorkerId} (h : uid' ≠ uid) (code : Option Int32)
    (events : List Event) :
    reported uid (.workerTerminated uid' code :: events) = reported uid events := by
  rw [reported, List.filterMap_cons]
  simp only [h, if_false]
  rfl

theorem mem_reported {uid : WorkerId} {events : List Event} {code : Option Int32} :
    code ∈ reported uid events ↔ .workerTerminated uid code ∈ events := by
  unfold reported
  rw [List.mem_filterMap]
  constructor
  · rintro ⟨e, he, hcode⟩
    split at hcode
    · split at hcode
      · rename_i huid
        cases hcode
        exact huid ▸ he
      · cases hcode
    · cases hcode
  · intro h
    exact ⟨_, h, by simp⟩

theorem reported_append (uid : WorkerId) (events events' : List Event) :
    reported uid (events ++ events') = reported uid events ++ reported uid events' :=
  List.filterMap_append

namespace Fork

theorem settle_child_of_known {pid : Int32} {children : Table .worker Unit}
    (h : children.contains (workerOf pid) = true) (code : Option Int32) (next : Reaping σ) :
    settle children (.child pid code next) =
      (.workerTerminated (workerOf pid) code :: (settle (children.erase (workerOf pid)) next).1,
        (settle (children.erase (workerOf pid)) next).2) := by
  rw [settle]
  exact if_pos h

theorem settle_child_of_unknown {pid : Int32} {children : Table .worker Unit}
    (h : ¬ children.contains (workerOf pid) = true) (code : Option Int32) (next : Reaping σ) :
    settle children (.child pid code next) = settle children next := by
  rw [settle]
  exact if_neg h

/-- Reaping leaves the children that no answer names. -/
theorem contains_settle (uid : WorkerId) (answers : Reaping σ) (children : Table .worker Unit) :
    (settle children answers).2.1.contains uid = true ↔
      children.contains uid = true ∧ ∀ x ∈ answers.exits, workerOf x.1 ≠ uid := by
  induction answers generalizing children with
  | nobody s => simp [settle, Reaping.exits]
  | failed s => simp [settle, Reaping.exits]
  | child pid code next ih =>
    rw [Reaping.exits, List.forall_mem_cons]
    by_cases hknown : children.contains (workerOf pid) = true
    · rw [settle_child_of_known hknown, ih, Table.contains_erase]
      constructor
      · rintro ⟨⟨hne, huid⟩, hnext⟩
        exact ⟨huid, Ne.symm hne, hnext⟩
      · rintro ⟨huid, hne, hnext⟩
        exact ⟨⟨Ne.symm hne, huid⟩, hnext⟩
    · rw [settle_child_of_unknown hknown, ih]
      constructor
      · rintro ⟨huid, hnext⟩
        exact ⟨huid, fun hpid => hknown (hpid ▸ huid), hnext⟩
      · rintro ⟨huid, _, hnext⟩
        exact ⟨huid, hnext⟩

/-- Reaping reports a child that was known once, with the code of the first
answer that names it, and nobody else. -/
theorem reported_settle (uid : WorkerId) (answers : Reaping σ) (children : Table .worker Unit) :
    reported uid (settle children answers).1 =
      if children.contains uid then
        ((answers.exits.find? fun x => workerOf x.1 = uid).map (·.2)).toList
      else [] := by
  induction answers generalizing children with
  | nobody s => simp [settle, Reaping.exits]
  | failed s => simp [settle, Reaping.exits]
  | child pid code next ih =>
    rw [Reaping.exits]
    by_cases hknown : children.contains (workerOf pid) = true
    · rw [settle_child_of_known hknown]
      by_cases hpid : workerOf pid = uid
      · subst hpid
        -- The child is erased, so no later answer is taken for its end.
        have hgone : ¬ (children.erase (workerOf pid)).contains (workerOf pid) = true := by
          rw [Table.contains_erase]
          exact fun h => h.1 rfl
        rw [reported_cons_self, ih, if_neg hgone, if_pos hknown,
          List.find?_cons_of_pos (by simp)]
        rfl
      · have hcontains : (children.erase (workerOf pid)).contains uid = children.contains uid := by
          rw [Bool.eq_iff_iff, Table.contains_erase]
          exact ⟨fun h => h.2, fun h => ⟨Ne.symm hpid, h⟩⟩
        rw [reported_cons_of_ne hpid, ih, hcontains, List.find?_cons_of_neg (by simp [hpid])]
    · rw [settle_child_of_unknown hknown, ih]
      split
      · rename_i huid
        have hpid : workerOf pid ≠ uid := fun h => hknown (h ▸ huid)
        rw [List.find?_cons_of_neg (by simp [hpid])]
      · rfl

/-- Every report of a reaping is one child less. -/
theorem length_settle (answers : Reaping σ) (children : Table .worker Unit) :
    (settle children answers).1.length + (settle children answers).2.1.size = children.size := by
  induction answers generalizing children with
  | nobody s => simp [settle]
  | failed s => simp [settle]
  | child pid code next ih =>
    by_cases hknown : children.contains (workerOf pid) = true
    · rw [settle_child_of_known hknown]
      have hrest := ih (children.erase (workerOf pid))
      have hsize := Table.size_erase_of_contains hknown
      simp only [List.length_cons]
      omega
    · rw [settle_child_of_unknown hknown]
      exact ih children

/-! ## Reactions -/

/-- All that a reaction can be, with the answer of the system that it is a
reaction to. -/
inductive Step (calls : ProcessCalls σ) (f : Fork) (s : σ) :
    Event → Reaction × Fork × σ → Prop where
  | forked {settings : Worker.Settings} {pid : Int32} {s' : σ} :
      calls.fork settings s = (.ok pid, s') →
      Step calls f s (.workerCreate settings)
        ({ emitted := [.workerCreated (workerOf pid)] },
          { f with children := f.children.insert (workerOf pid) () }, s')
  | notForked {settings : Worker.Settings} {failure : Failure} {s' : σ} :
      calls.fork settings s = (.error failure, s') →
      Step calls f s (.workerCreate settings)
        ({ failure := some (.spawn failure "fork failed") }, f, s')
  | vanished {uid : WorkerId} {hard : Bool} {s' : σ} :
      calls.kill (processOf uid) (if hard then .kill else .interrupt) s = (.nobody, s') →
      Step calls f s (.workerTerminate uid hard)
        ({ emitted := [.workerTerminated uid none] },
          { f with children := f.children.erase uid }, s')
  | signalled {uid : WorkerId} {hard : Bool} {delivered : Delivered} {s' : σ} :
      calls.kill (processOf uid) (if hard then .kill else .interrupt) s = (delivered, s') →
      delivered ≠ .nobody → Step calls f s (.workerTerminate uid hard) ({}, f, s')
  | looped {ends : List Event} {children : Table .worker Unit} {s' : σ} :
      settle f.children (calls.reap s) = (ends, children, s') →
      Step calls f s .schedulerLoop
        ({ emitted := ends ++ (checkParent f.parent (calls.parent s')).1 },
          ⟨children, (checkParent f.parent (calls.parent s')).2⟩, s')
  | started : Step calls f s .kernelStart ({}, { f with parent := some (calls.parent s) }, s)
  | ignored {e : Event} : Step calls f s e ({}, f, s)

theorem step_react (calls : ProcessCalls σ) (e : Event) (f : Fork) (s : σ) :
    Step calls f s e (react calls e (f, s)) := by
  cases e with
  | kernelStart => exact .started
  | workerCreate settings =>
    show Step calls f s _ (create calls settings f s)
    unfold create
    split
    · rename_i h
      exact .notForked h
    · rename_i h
      exact .forked h
  | workerTerminate uid hard =>
    show Step calls f s _ (terminate calls uid hard f s)
    unfold terminate
    split
    · rename_i h
      exact .vanished h
    · rename_i delivered s' hnot h
      exact .signalled h fun hnobody => hnot hnobody
  | schedulerLoop =>
    have hsettle : settle f.children (calls.reap s) =
        ((settle f.children (calls.reap s)).1, (settle f.children (calls.reap s)).2.1,
          (settle f.children (calls.reap s)).2.2) := rfl
    exact .looped hsettle
  | schedulerStart => exact .ignored
  | schedulerStop => exact .ignored
  | workerCreated _ => exact .ignored
  | workerInit _ => exact .ignored
  | workerLoop _ => exact .ignored
  | workerExit _ => exact .ignored
  | workerTerminated _ _ => exact .ignored

theorem eq_workerTerminated_of_mem_settle {answers : Reaping σ} {children : Table .worker Unit}
    {e : Event} (h : e ∈ (settle children answers).1) :
    ∃ uid code, e = .workerTerminated uid code := by
  induction answers generalizing children with
  | nobody s => cases h
  | failed s => cases h
  | child pid code next ih =>
    by_cases hknown : children.contains (workerOf pid) = true
    · rw [settle_child_of_known hknown] at h
      rcases List.mem_cons.mp h with rfl | h
      · exact ⟨_, _, rfl⟩
      · exact ih h
    · rw [settle_child_of_unknown hknown] at h
      exact ih h

theorem eq_schedulerStop_of_mem_checkParent {known : Option Int32} {current : Int32} {e : Event}
    (h : e ∈ (checkParent known current).1) : e = .schedulerStop := by
  unfold checkParent at h
  split at h
  · cases h
  · split at h
    · cases h
    · exact List.mem_singleton.mp h

theorem reported_checkParent (uid : WorkerId) (known : Option Int32) (current : Int32) :
    reported uid (checkParent known current).1 = [] := by
  rw [reported, List.filterMap_eq_nil_iff]
  intro e he
  rw [eq_schedulerStop_of_mem_checkParent he]

/-- The backend does not react to what it emits. -/
theorem Step.react_emitted {calls : ProcessCalls σ} {f : Fork} {s : σ} {e e' : Event}
    {r : Reaction} {x : Fork × σ} (h : Step calls f s e (r, x)) (he : e' ∈ r.emitted)
    (y : Fork × σ) : react calls e' y = ({}, y) := by
  cases h with
  | forked _ => obtain rfl := List.mem_singleton.mp he; rfl
  | notForked _ => cases he
  | vanished _ => obtain rfl := List.mem_singleton.mp he; rfl
  | signalled _ _ => cases he
  | looped hsettle =>
    rcases List.mem_append.mp he with hend | hstop
    · have hends : e' ∈ (settle f.children (calls.reap s)).1 := by rwa [hsettle]
      obtain ⟨uid, code, rfl⟩ := eq_workerTerminated_of_mem_settle hends
      rfl
    · rw [eq_schedulerStop_of_mem_checkParent hstop]
      rfl
  | started => cases he
  | ignored => cases he

/-- A child that is left after a reaction was there before, unless it was
created, and the reaction does not report its end. -/
theorem Step.of_contains {calls : ProcessCalls σ} {f f' : Fork} {s s' : σ} {e : Event}
    {r : Reaction} (h : Step calls f s e (r, f', s'))
    (he : ∀ settings, e ≠ .workerCreate settings)
    {uid : WorkerId} (huid : f'.children.contains uid = true) :
    f.children.contains uid = true ∧ reported uid r.emitted = [] := by
  cases h with
  | forked _ | notForked _ => exact absurd rfl (he _)
  | vanished _ =>
    obtain ⟨hne, huid⟩ := (Table.contains_erase _ _ _).mp huid
    exact ⟨huid, reported_cons_of_ne (Ne.symm hne) none []⟩
  | looped hsettle =>
    have hleft := contains_settle uid (calls.reap s) f.children
    have hends := reported_settle uid (calls.reap s) f.children
    rw [hsettle] at hleft hends
    obtain ⟨huid, hnone⟩ := hleft.mp huid
    have hfind : (calls.reap s).exits.find? (fun x => workerOf x.1 = uid) = none := by
      simpa using hnone
    refine ⟨huid, ?_⟩
    rw [reported_append, reported_checkParent, List.append_nil, hends, hfind]
    simp
  | signalled | started | ignored => exact ⟨huid, rfl⟩

/-! ## The bus -/

/-- The bus on which the backend is the only listener. -/
def bus (calls : ProcessCalls σ) : Bus (Fork × σ) :=
  (backend calls).attach

theorem chains_bus (calls : ProcessCalls σ) (kind : Kind) :
    (bus calls).chains kind =
      if kind ∈ Lifecycle.Backend.subscriptions.map Prod.fst then [⟨0, 0⟩] else [] :=
  (backend calls).chains_attach kind

theorem listeners_bus (calls : ProcessCalls σ) : (bus calls).listeners = [react calls] :=
  rfl

/-- Chains are sorted, and these have no more than one handler. -/
theorem bus_eq (calls : ProcessCalls σ) :
    bus calls = ⟨[react calls], fun kind =>
      if kind ∈ Lifecycle.Backend.subscriptions.map Prod.fst then [⟨0, 0⟩] else []⟩ := by
  have hchains := funext (chains_bus calls)
  rw [← hchains, ← listeners_bus]

/-- What a chain reports of a single reaction: the emissions or the failure. -/
def outcome (r : Reaction) : Except Error (List Event) :=
  match r.failure with
  | some error => .error error
  | none => .ok r.emitted

theorem dispatch_bus (calls : ProcessCalls σ) (e : Event) (x : Fork × σ) :
    (bus calls).dispatch e x = (outcome (react calls e x).1, (react calls e x).2) := by
  rw [Bus.dispatch, chains_bus]
  split
  · unfold outcome
    simp only [Bus.runChain, listeners_bus, List.getElem?_cons_zero]
    cases hfailure : (react calls e x).1.failure with
    | some error => simp
    | none => cases hstop : (react calls e x).1.stop <;> simp [Except.map]
  · -- A kind without a subscription is one that the backend ignores.
    rename_i hkind
    cases e with
    | workerCreated | workerInit | workerExit | workerTerminated => rfl
    | kernelStart | workerCreate | workerLoop | workerTerminate | schedulerStart | schedulerLoop
    | schedulerStop => exact absurd (by simp [Lifecycle.Backend.subscriptions, Event.kind]) hkind

/-- Events that the backend ignores fill the room and cause nothing. -/
theorem cascade_bus_of_ignored {calls : ProcessCalls σ} {queue : List Event}
    (h : ∀ e ∈ queue, ∀ y, react calls e y = ({}, y)) (room : Nat) (x : Fork × σ) :
    (bus calls).cascade room queue x =
      (if queue.length ≤ room then .ok queue else .error (.protocol .endlessCascade), x) := by
  induction queue generalizing room with
  | nil => simp [Bus.cascade]
  | cons e queue ih =>
    have hdispatch : (bus calls).dispatch e x = (.ok [], x) := by
      rw [dispatch_bus, h e List.mem_cons_self]
      rfl
    cases room with
    | zero => simp [Bus.cascade, hdispatch]
    | succ room =>
      have hrest := ih (fun e' he' => h e' (List.mem_cons_of_mem _ he')) room
      simp only [Bus.cascade, hdispatch, List.append_nil, hrest, List.length_cons,
        Nat.add_le_add_iff_right]
      split <;> rfl

/-- A raise is one reaction.  What it emitted is returned if the bus has room
for it. -/
theorem raise_bus (calls : ProcessCalls σ) (e : Event) (x : Fork × σ) :
    (bus calls).raise e x =
      (match (react calls e x).1.failure with
        | some error => .error error
        | none =>
          if (react calls e x).1.emitted.length ≤ Bus.cascadeLimit then
            .ok (react calls e x).1.emitted
          else .error (.protocol .endlessCascade),
        (react calls e x).2) := by
  obtain ⟨f, s⟩ := x
  have hstep := step_react calls e f s
  rw [Bus.raise, dispatch_bus]
  generalize react calls e (f, s) = y at hstep
  obtain ⟨r, y⟩ := y
  unfold outcome
  cases hfailure : r.failure with
  | some error => rfl
  | none => exact cascade_bus_of_ignored (fun e' he' => hstep.react_emitted he') _ y

/-- A raise fails, or it returns what its one reaction emitted. -/
theorem raise_bus_cases (calls : ProcessCalls σ) (e : Event) (x : Fork × σ) :
    (∃ error, (bus calls).raise e x = (.error error, (react calls e x).2)) ∨
      (bus calls).raise e x = (.ok (react calls e x).1.emitted, (react calls e x).2) := by
  rw [raise_bus]
  split
  · exact Or.inl ⟨_, rfl⟩
  · split
    · exact Or.inr rfl
    · exact Or.inl ⟨_, rfl⟩

/-- A worker starts if it can be forked. -/
theorem startWorker_bus (calls : ProcessCalls σ) (settings : Worker.Settings) (f : Fork) (s : σ) :
    (bus calls).startWorker settings (f, s) =
      match calls.fork settings s with
      | (.error _, s) => (none, f, s)
      | (.ok pid, s) =>
        (some (workerOf pid), { f with children := f.children.insert (workerOf pid) () }, s) := by
  unfold Bus.startWorker
  rw [raise_bus]
  have hreact : react calls (.workerCreate settings) (f, s) = create calls settings f s := rfl
  rw [hreact, create]
  generalize calls.fork settings s = forked
  obtain ⟨outcome, s'⟩ := forked
  cases outcome with
  | error failure => rfl
  | ok pid =>
    show (_, ((bus calls).raise (.workerInit (workerOf pid)) _).2) = _
    rw [raise_bus]
    rfl

theorem raise_bus_snd (calls : ProcessCalls σ) (e : Event) (x : Fork × σ) :
    ((bus calls).raise e x).2 = (react calls e x).2 := by
  rw [raise_bus]

end Fork

end Supervisor.Backend
