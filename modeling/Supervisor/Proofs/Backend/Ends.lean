import Mathlib.Data.List.Perm.Subperm
import Mathlib.Data.List.Nodup
import Supervisor.Proofs.Backend.Fork
import Supervisor.Sim.Script

/-!
# Which ends reach the caller of a raise

The forking backend forgets a child before the report of its end has travelled
through the bus.  The report is lost if the bus gives the raise up, which it
does when there are more follow-ups than it has room for: many children that
are reaped in one turn of the control loop.

`ends_returned_iff` is the exact condition, for a raise of any event in any
state of the backend and of the system.  `ends_of_crowd_lost` is the smallest
run that loses ends while the supervisor's own parent stays: 1025 children are
forked, and all of them have ended when the loop turns.
-/

namespace Supervisor.Backend.Fork

open Lifecycle (Bus Event Reaction)

variable {σ : Type}

/-! ## Children that leave -/

/-- The children of `before` that `after` does not know. -/
def departed (before after : Fork) : List WorkerId :=
  before.children.keys.filter fun uid => !after.children.contains uid

theorem mem_departed {before after : Fork} {uid : WorkerId} :
    uid ∈ departed before after ↔
      before.children.contains uid = true ∧ ¬ after.children.contains uid = true := by
  unfold departed
  rw [List.mem_filter, ← Table.contains_iff, Bool.not_eq_true', Bool.not_eq_true]

theorem length_departed (before after : Fork)
    (h : ∀ uid, after.children.contains uid = true → before.children.contains uid = true) :
    (departed before after).length + after.children.size = before.children.size :=
  Table.length_filter_not_contains h

/-- The backend asks for a stop exactly if it takes note of another parent. -/
theorem length_checkParent (known : Option Int32) (current : Int32) :
    (checkParent known current).1.length =
      if (checkParent known current).2 = known then 0 else 1 := by
  unfold checkParent
  split
  · rfl
  · split
    · simp
    · rename_i hne
      simp [hne]

/-- A reaction that takes a child away reports its end.  Its emissions are one
for each child that leaves, and one more if the parent has changed. -/
theorem Step.of_departed {calls : ProcessCalls σ} {f f' : Fork} {s s' : σ} {e : Event}
    {r : Reaction} (h : Step calls f s e (r, f', s')) {uid : WorkerId}
    (huid : uid ∈ departed f f') :
    r.failure = none ∧ (∃ code, .workerTerminated uid code ∈ r.emitted) ∧
      r.emitted.length = (departed f f').length + if f'.parent = f.parent then 0 else 1 := by
  obtain ⟨hbefore, hafter⟩ := mem_departed.mp huid
  cases h with
  | forked _ => exact absurd ((Table.contains_insert _ _ _ _).mpr (Or.inr hbefore)) hafter
  | notForked _ => exact absurd hbefore hafter
  | signalled _ _ => exact absurd hbefore hafter
  | started => exact absurd hbefore hafter
  | ignored => exact absurd hbefore hafter
  | @vanished gone _ _ _ =>
    obtain rfl : uid = gone := Classical.byContradiction fun hne =>
      hafter ((Table.contains_erase _ _ _).mpr ⟨hne, hbefore⟩)
    have hlen := length_departed f { f with children := f.children.erase uid }
      fun _ hcontains => ((Table.contains_erase _ _ _).mp hcontains).2
    have hsize := Table.size_erase_of_contains hbefore
    refine ⟨rfl, ⟨none, List.mem_singleton.mpr rfl⟩, ?_⟩
    simp only [if_true, List.length_singleton] at hlen ⊢
    omega
  | @looped ends children _ hsettle =>
    have hcontains := fun uid => contains_settle uid (calls.reap s) f.children
    have hreported := reported_settle uid (calls.reap s) f.children
    have hends := length_settle (calls.reap s) f.children
    rw [hsettle] at hcontains hreported hends
    have hlen := length_departed f ⟨children, (checkParent f.parent (calls.parent s')).2⟩
      fun uid' hcontains' => ((hcontains uid').mp hcontains').1
    refine ⟨rfl, ?_, ?_⟩
    · have hnamed : ∃ x ∈ (calls.reap s).exits, workerOf x.1 = uid := by
        apply Classical.byContradiction
        intro hnone
        exact hafter ((hcontains uid).mpr ⟨hbefore, fun x hx huid => hnone ⟨x, hx, huid⟩⟩)
      have hfound : ((calls.reap s).exits.find? fun x => workerOf x.1 = uid).isSome := by
        rw [List.find?_isSome]
        simpa using hnamed
      obtain ⟨x, hx⟩ := Option.isSome_iff_exists.mp hfound
      rw [if_pos hbefore, hx] at hreported
      refine ⟨x.2, List.mem_append_left _ (mem_reported.mp ?_)⟩
      rw [hreported]
      exact List.mem_singleton.mpr rfl
    · rw [List.length_append, length_checkParent]
      simp only at hends hlen ⊢
      omega

/-- A child stays, or it leaves and its end is reported. -/
theorem Step.stays_or_ends {calls : ProcessCalls σ} {f f' : Fork} {s s' : σ} {e : Event}
    {r : Reaction} (h : Step calls f s e (r, f', s')) {uid : WorkerId}
    (hchild : f.children.contains uid = true) :
    f'.children.contains uid = true ∨ uid ∈ departed f f' ∧ reported uid r.emitted ≠ [] := by
  by_cases hstays : f'.children.contains uid = true
  · exact .inl hstays
  · have hgone := mem_departed.mpr ⟨hchild, hstays⟩
    obtain ⟨code, hcode⟩ := (h.of_departed hgone).2.1
    exact .inr ⟨hgone, List.ne_nil_of_mem (mem_reported.mpr hcode)⟩

/-! ## The exact condition -/

/-- Number of follow-ups of a raise that takes children away. -/
def followUps (before after : Fork) : Nat :=
  (departed before after).length + if after.parent = before.parent then 0 else 1

/-- A turn of the control loop takes away the children that are reaped. -/
theorem mem_departed_schedulerLoop {calls : ProcessCalls σ} {x : Fork × σ} {uid : WorkerId} :
    uid ∈ departed x.1 ((bus calls).raise .schedulerLoop x).2.1 ↔
      x.1.children.contains uid = true ∧ ∃ y ∈ (calls.reap x.2).exits, workerOf y.1 = uid := by
  have hcontains : (react calls .schedulerLoop x).2.1.children.contains uid = true ↔ _ :=
    contains_settle uid (calls.reap x.2) x.1.children
  rw [mem_departed, raise_bus_snd, hcontains]
  constructor
  · rintro ⟨hknown, hreaped⟩
    refine ⟨hknown, Classical.byContradiction fun hnone => hreaped ⟨hknown, ?_⟩⟩
    exact fun y hy huid => hnone ⟨y, hy, huid⟩
  · rintro ⟨hknown, y, hy, huid⟩
    exact ⟨hknown, fun hleft => hleft.2 y hy huid⟩

/-- What a raise returns if it takes a child away: the reports of all children
that leave, or nothing at all. -/
theorem raise_of_departed {calls : ProcessCalls σ} {e : Event} {x : Fork × σ}
    (h : departed x.1 ((bus calls).raise e x).2.1 ≠ []) :
    ∃ events : List Event, events.length = followUps x.1 ((bus calls).raise e x).2.1 ∧
      (∀ uid ∈ departed x.1 ((bus calls).raise e x).2.1,
        ∃ code, .workerTerminated uid code ∈ events) ∧
      ((bus calls).raise e x).1 =
        if events.length ≤ 1024 then .ok events else .error (.protocol .endlessCascade) := by
  rw [raise_bus] at h ⊢
  have hstep := step_react calls e x.1 x.2
  rcases hreact : react calls e x with ⟨r, f', s'⟩
  rw [hreact] at h hstep
  obtain ⟨uid, huid⟩ := List.exists_mem_of_ne_nil _ h
  obtain ⟨hfailure, _, hlen⟩ := hstep.of_departed huid
  refine ⟨r.emitted, hlen, fun uid huid => (hstep.of_departed huid).2.1, ?_⟩
  simp only [hfailure]
  rfl

/-- A raise hands out the end of every child that leaves exactly if none
leaves or there is room for all follow-ups: one for each child and one more if
the backend asks for a stop.  Otherwise it hands out nothing. -/
theorem ends_returned_iff (calls : ProcessCalls σ) (e : Event) (x : Fork × σ) :
    let out := (bus calls).raise e x
    ((∀ uid ∈ departed x.1 out.2.1,
          ∃ events code, out.1 = .ok events ∧ .workerTerminated uid code ∈ events) ↔
        departed x.1 out.2.1 = [] ∨ followUps x.1 out.2.1 ≤ 1024) ∧
      (departed x.1 out.2.1 ≠ [] → 1024 < followUps x.1 out.2.1 →
        out.1 = .error (.protocol .endlessCascade)) := by
  intro out
  by_cases hgone : departed x.1 out.2.1 = []
  · simp [hgone]
  · obtain ⟨events, hlen, hends, hout⟩ := raise_of_departed hgone
    rw [hlen] at hout
    by_cases hroom : followUps x.1 out.2.1 ≤ 1024
    · rw [if_pos hroom] at hout
      refine ⟨iff_of_true (fun uid huid => ?_) (Or.inr hroom), fun _ hover => ?_⟩
      · obtain ⟨code, hcode⟩ := hends uid huid
        exact ⟨events, code, hout, hcode⟩
      · omega
    · rw [if_neg hroom] at hout
      refine ⟨iff_of_false (fun hall => ?_) (by simp [hgone, hroom]), fun _ _ => hout⟩
      obtain ⟨uid, huid⟩ := List.exists_mem_of_ne_nil _ hgone
      obtain ⟨_, _, hok, _⟩ := hall uid huid
      rw [show out.1 = _ from hout] at hok
      cases hok

/-! ## A run that loses ends -/

/-- The first positive pids. -/
def crowd (n : Nat) : List Int32 :=
  (List.range n).map fun k => Int32.ofNat (k + 1)

theorem crowd_succ (n : Nat) : crowd (n + 1) = crowd n ++ [Int32.ofNat (n + 1)] := by
  unfold crowd
  rw [List.range_succ, List.map_append]
  rfl

theorem nodup_crowd {n : Nat} (h : n < 2147483648) : (crowd n).Nodup := by
  unfold crowd
  rw [List.nodup_map_iff_inj_on List.nodup_range]
  intro j hj k hk hjk
  rw [List.mem_range] at hj hk
  have hval := congrArg Int32.toInt hjk
  rw [Int32.toInt_ofNat_of_lt (by omega), Int32.toInt_ofNat_of_lt (by omega)] at hval
  omega

/-- Creating workers for the pids that the system gives out. -/
theorem raiseAll_create (settings : Worker.Settings) (pids : List Int32) :
    ∀ (f : Fork) (p : Sim.Processes), p.forks = pids.map some →
      (bus Sim.Processes.calls).raiseAll
          (List.replicate pids.length (.workerCreate settings)) (f, p) =
        ({ f with children := pids.foldl (fun t pid => t.insert (workerOf pid) ()) f.children },
          { p with forks := [] }) := by
  induction pids with
  | nil =>
    intro f p hforks
    obtain ⟨forks⟩ := p
    cases hforks
    rfl
  | cons pid pids ih =>
    intro f p hforks
    have hreact : react Sim.Processes.calls (.workerCreate settings) (f, p) =
        ({ emitted := [.workerCreated (workerOf pid)] },
          { f with children := f.children.insert (workerOf pid) () },
          { p with forks := pids.map some }) := by
      simp [react, create, Sim.Processes.calls, hforks]
    rw [List.length_cons, List.replicate_succ, Bus.raiseAll, List.foldl_cons, raise_bus_snd, hreact]
    exact ih _ _ rfl

theorem contains_foldl_insert (uid : WorkerId) (pids : List Int32) :
    ∀ t : Table .worker Unit,
      (pids.foldl (fun t pid => t.insert (workerOf pid) ()) t).contains uid = true ↔
        t.contains uid = true ∨ uid ∈ pids.map workerOf := by
  induction pids with
  | nil => simp
  | cons pid pids ih =>
    intro t
    rw [List.foldl_cons, ih, Table.contains_insert, List.map_cons, List.mem_cons]
    constructor
    · rintro ((h | h) | h)
      · exact Or.inr (Or.inl h)
      · exact Or.inl h
      · exact Or.inr (Or.inr h)
    · rintro (h | h | h)
      · exact Or.inl (Or.inr h)
      · exact Or.inl (Or.inl h)
      · exact Or.inr h

theorem exits_reapFrom (p : Sim.Processes) (ends : List (Int32 × Option Int32)) :
    (Sim.Processes.reapFrom p (ends.map fun x => .child x.1 x.2)).exits = ends := by
  induction ends with
  | nil => rfl
  | cons x ends ih => rw [List.map_cons, Sim.Processes.reapFrom, Reaping.exits, ih]

/-- A script by which so many children are forked and then have all ended. -/
def crowdScript (n : Nat) : Sim.Processes :=
  { forks := (crowd n).map some
    reaps := ((crowd n).map fun pid => (pid, some 0)).map fun x => .child x.1 x.2 }

/-- The backend and the system after so many workers were created. -/
def crowdCreated (settings : Worker.Settings) (n : Nat) : Fork × Sim.Processes :=
  (bus Sim.Processes.calls).raiseAll
    (List.replicate n (.workerCreate settings)) (.empty, crowdScript n)

theorem crowdCreated_eq (settings : Worker.Settings) (n : Nat) :
    crowdCreated settings n =
      (⟨(crowd n).foldl (fun t pid => t.insert (workerOf pid) ()) ∅, none⟩,
        { crowdScript n with forks := [] }) := by
  have hlen : (crowd n).length = n := by simp [crowd]
  have hrun := raiseAll_create settings (crowd n) .empty (crowdScript n) rfl
  rw [hlen] at hrun
  exact hrun

/-- When all of a crowd have ended, all of them leave in one turn. -/
theorem length_crowd_le_departed (settings : Worker.Settings) {n : Nat} (h : n < 2147483648) :
    n ≤ (departed (crowdCreated settings n).1
      ((bus Sim.Processes.calls).raise .schedulerLoop (crowdCreated settings n)).2.1).length := by
  have hgone : (crowd n).map workerOf ⊆ departed (crowdCreated settings n).1
      ((bus Sim.Processes.calls).raise .schedulerLoop (crowdCreated settings n)).2.1 := by
    intro uid huid
    obtain ⟨pid, hpid, rfl⟩ := List.mem_map.mp huid
    rw [crowdCreated_eq]
    refine mem_departed_schedulerLoop.mpr ⟨?_, (pid, some 0), ?_, rfl⟩
    · exact (contains_foldl_insert _ _ _).mpr (Or.inr huid)
    · show _ ∈ (Sim.Processes.reapFrom _ (((crowd n).map _).map _)).exits
      rw [exits_reapFrom]
      exact List.mem_map_of_mem hpid
  have hnodup := (nodup_crowd h).map fun _ _ => workerOf_injective
  have hlen := (List.subperm_of_subset hnodup hgone).length_le
  rwa [List.length_map, crowd, List.length_map, List.length_range] at hlen

/-- A crowd for which the bus has no room leaves without a word to the
caller. -/
theorem crowd_lost {n : Nat} (hmany : 1024 < n) (h : n < 2147483648)
    {settings : Worker.Settings} {created : Fork × Sim.Processes}
    (hcreated : created = crowdCreated settings n) :
    ((bus Sim.Processes.calls).raise .schedulerLoop created).1 =
        .error (.protocol .endlessCascade) ∧
      departed created.1 ((bus Sim.Processes.calls).raise .schedulerLoop created).2.1 ≠ [] := by
  have hgone := length_crowd_le_departed settings h
  rw [← hcreated] at hgone
  have hsome := List.ne_nil_of_length_pos (show 0 < _ from Nat.lt_of_lt_of_le (by omega) hgone)
  obtain ⟨events, hlen, _, hout⟩ := raise_of_departed hsome
  refine ⟨?_, hsome⟩
  rw [hout, if_neg]
  rw [hlen]
  unfold followUps
  omega

/-- 1025 workers are created and have all ended when the control loop turns:
not every end is reported. -/
theorem ends_of_crowd_lost :
    let created := crowdCreated ⟨"echo", .loopback, 0, .ofMillis 10⟩ 1025
    let out := (bus Sim.Processes.calls).raise .schedulerLoop created
    ¬ ∀ uid ∈ departed created.1 out.2.1,
      ∃ events code, out.1 = .ok events ∧ .workerTerminated uid code ∈ events := by
  -- Under a name the number is not a literal that the script is run on.
  obtain ⟨n, hn⟩ : ∃ n : Nat, n = 1025 := ⟨_, rfl⟩
  rw [← hn]
  intro created out hall
  have hmany : 1024 < n := by omega
  have hpids : n < 2147483648 := by omega
  obtain ⟨hlost, hsome⟩ := crowd_lost hmany hpids (show created = crowdCreated _ n from rfl)
  obtain ⟨uid, huid⟩ := List.exists_mem_of_ne_nil _ hsome
  obtain ⟨_, _, hok, _⟩ := hall uid huid
  rw [show out.1 = _ from hlost] at hok
  cases hok

end Supervisor.Backend.Fork
