import Mathlib.Algebra.GroupWithZero.Nat
import Supervisor.Poll.Reactor
import Supervisor.Proofs.Poll.Selector

/-!
# One poll for many selectors

A reactor polls the streams of all its selectors in one call.  No selector can
tell the difference: when its user is told, it is what its own select would
have made of it, had its streams been found as ready as they were.

* `Selector.Alone` is what a select of one's own finds, whatever the host and
  however long it waits.
* `Handler.noted` writes down every callback with the selector it gets.
* `serve_noted` and `serveAll_noted` follow the callbacks of one selector and
  of all in turn.  The user of one selector cannot reach the next one, so the
  induction has no invariant but the log.
* `merged_poll_is_own_poll` is the equivalence.
-/

namespace Supervisor.Poll

variable {α σ : Type}

/-! ## A select of one's own -/

namespace Selector

variable {sel : Selector α}

/-- Only what is reported of polled streams matters. -/
theorem polled_congr {report own : StreamId → Readiness}
    (h : ∀ e ∈ sel.pruneClosed.pollEntries, own e.id = report e.id) :
    sel.polled own = sel.polled report := by
  have hids : ∀ id ∈ sel.pruneClosed.pollEntries.map (·.id), own id = report id := by
    intro id hid
    obtain ⟨e, he, rfl⟩ := List.mem_map.mp hid
    exact h e he
  have hkey : ∀ (id : StreamId) (key : Key α),
      (if id ∈ sel.pruneClosed.pollEntries.map (·.id) ∧ !(own id).isEmpty then
        readyOps key.stream.kind key.interest (own id) else .none) =
      if id ∈ sel.pruneClosed.pollEntries.map (·.id) ∧ !(report id).isEmpty then
        readyOps key.stream.kind key.interest (report id) else .none := by
    intro id key
    by_cases hid : id ∈ sel.pruneClosed.pollEntries.map (·.id)
    · rw [hids id hid]
    · rw [if_neg fun hand => hid hand.1, if_neg fun hand => hid hand.1]
  simp only [polled, applyReadiness, hkey]

/-- What a selector and its count are after a select of its own that finds its
streams ready as reported. -/
structure Alone (report : StreamId → Readiness) (sel : Selector α) (after : Nat × Selector α) :
    Prop where
  select : ∀ {τ : Type} (host : Host τ) (timeout : Option Duration) (t t' : τ)
    (own : StreamId → Readiness),
    host.poll sel.pruneClosed.pollEntries timeout t = (.reported own, t') →
    (∀ e ∈ sel.pruneClosed.pollEntries, own e.id = report e.id) →
    (sel.select timeout host t).1 = .ok after.1 ∧ (sel.select timeout host t).2.1 = after.2
  count_pos : 0 < after.1 ↔ ∃ id key, after.2.keys.find? id = some key ∧ key.ready ≠ .none

theorem Sound.alone (h : sel.Sound) (report : StreamId → Readiness) :
    sel.Alone report ((sel.polled report).ready.length, sel.polled report) where
  select host timeout t t' own hpoll hown := by
    rw [← polled_congr hown]
    exact h.select_of_reported hpoll
  count_pos := by
    rw [List.length_pos_iff_exists_mem]
    exact exists_congr (h.mem_ready_polled report)

end Selector

/-! ## Callbacks -/

/-- A callback, with the selector that the user gets. -/
inductive Callback (α : Type) where
  | ready (id : SelectorId) (sel : Selector α)
  | timeout (id : SelectorId) (sel : Selector α)

/-- The user of a reactor, who writes all callbacks down. -/
def Handler.noted (handler : Handler α σ) : Handler α (List (Callback α) × σ) where
  onReady id sel s :=
    let (result, sel', t) := handler.onReady id sel s.2
    (result, sel', s.1 ++ [.ready id sel], t)
  onTimeout id sel s :=
    let (result, sel', t) := handler.onTimeout id sel s.2
    (result, sel', s.1 ++ [.timeout id sel], t)
  onTick r s :=
    let (result, r', t) := handler.onTick r s.2
    (result, r', s.1, t)

/-- The user of a reactor never fails in what it is called for. -/
structure Handler.Succeeds (handler : Handler α σ) : Prop where
  ready : ∀ id sel s, (handler.onReady id sel s).1 = .ok ()
  timeout : ∀ id sel s, (handler.onTimeout id sel s).1 = .ok ()

/-- The callback that is due for a selector after a poll: about readiness if a
stream is ready, else about the time if nothing was ready for so long. -/
def Observed.callback? (o : Observed α) (now : Duration) (after : Nat × Selector α) :
    Option (Callback α) :=
  if 0 < after.1 then some (.ready o.id after.2)
  else if o.timeout ≤ now - o.lastReady then some (.timeout o.id after.2)
  else none

namespace Reactor

open Selector (run)

variable {handler : Handler α σ} {host : Host σ}

/-- An observed selector without closed streams. -/
abbrev pruned (o : Observed α) : Observed α :=
  { o with selector := o.selector.pruneClosed }

/-- The count and the selector that an observed selector is served with. -/
abbrev served (report : StreamId → Readiness) (o : Observed α) : Nat × Selector α :=
  ((o.selector.polled report).ready.length, o.selector.polled report)

theorem serve_pruned (handler : Handler α σ) (now : Duration) (report : StreamId → Readiness)
    (o : Observed α) (s : σ) :
    serve handler now report (pruned o) s =
      match o.callback? now (served report o) with
      | some (.ready id sel) =>
        let (result, selector, s) := handler.onReady id sel s
        (result.map fun () => (served report o).1, { o with selector, lastReady := now }, s)
      | some (.timeout id sel) =>
        let (result, selector, s) := handler.onTimeout id sel s
        (result.map fun () => (served report o).1, { o with selector, lastReady := now }, s)
      | none => (.ok (served report o).1, { o with selector := (served report o).2 }, s) := by
  by_cases hcount : 0 < (served report o).1
  · have hdue : o.callback? now (served report o) = some (.ready o.id (served report o).2) :=
      if_pos hcount
    rw [hdue]
    exact if_pos hcount
  · by_cases htime : o.timeout ≤ now - o.lastReady
    · have hdue : o.callback? now (served report o) = some (.timeout o.id (served report o).2) :=
        (if_neg hcount).trans (if_pos htime)
      rw [hdue]
      exact (if_neg hcount).trans (if_pos htime)
    · have hdue : o.callback? now (served report o) = none :=
        (if_neg hcount).trans (if_neg htime)
      rw [hdue]
      exact (if_neg hcount).trans (if_neg htime)

theorem serve_noted (h : handler.Succeeds) (now : Duration) (report : StreamId → Readiness)
    (o : Observed α) (log : List (Callback α)) (s : σ) :
    (serve handler now report (pruned o) s).1 = .ok (served report o).1 ∧
      serve handler.noted now report (pruned o) (log, s) =
        (.ok (served report o).1, (serve handler now report (pruned o) s).2.1,
          log ++ (o.callback? now (served report o)).toList,
          (serve handler now report (pruned o) s).2.2) := by
  rw [serve_pruned, serve_pruned]
  cases o.callback? now (served report o) with
  | none =>
    rw [Option.toList_none, List.append_nil]
    exact ⟨rfl, rfl⟩
  | some c =>
    cases c with
    | ready id sel =>
      have hresult := h.ready id sel s
      simp only [Handler.noted, hresult]
      exact ⟨rfl, rfl⟩
    | timeout id sel =>
      have hresult := h.timeout id sel s
      simp only [Handler.noted, hresult]
      exact ⟨rfl, rfl⟩

theorem serveAll_noted (h : handler.Succeeds) (now : Duration) (report : StreamId → Readiness)
    (observed : List (Observed α)) (log : List (Callback α)) (s : σ) :
    (serveAll handler now report (observed.map pruned) s).1 =
        .ok (observed.map fun o => (served report o).1).sum ∧
      serveAll handler.noted now report (observed.map pruned) (log, s) =
        (.ok (observed.map fun o => (served report o).1).sum,
          (serveAll handler now report (observed.map pruned) s).2.1,
          log ++ observed.filterMap (fun o => o.callback? now (served report o)),
          (serveAll handler now report (observed.map pruned) s).2.2) := by
  induction observed generalizing log s with
  | nil =>
    rw [List.filterMap_nil, List.append_nil]
    exact ⟨rfl, rfl⟩
  | cons o rest ih =>
    obtain ⟨hone, hnoted⟩ := serve_noted h now report o log s
    rw [List.map_cons]
    unfold serveAll
    dsimp only
    rw [hnoted]
    generalize serve handler now report (pruned o) s = outcome at hone ⊢
    obtain ⟨result, o', s'⟩ := outcome
    cases hone
    obtain ⟨hrest, hrestNoted⟩ :=
      ih (log ++ (o.callback? now (served report o)).toList) s'
    dsimp only
    rw [hrestNoted, hrest, List.append_assoc, List.filterMap_cons]
    refine ⟨rfl, ?_⟩
    cases o.callback? now (served report o) with
    | none => rfl
    | some c => rfl

/-- The poll of a tick: all open streams of all selectors. -/
def mergedPoll (r : Reactor α) (host : Host σ) (s : σ) :
    Except Error (StreamId → Readiness) × σ :=
  pollMerged host (r.observed.flatMap fun o => o.selector.pruneClosed.pollEntries)
    (r.waitBudget (host.clock s)) s

theorem pollMerged_onSecond {τ : Type} (host : Host σ) (entries : List PollEntry)
    (budget : Duration) (t : τ) (s : σ) :
    pollMerged host.onSecond entries budget (t, s) =
      ((pollMerged host entries budget s).1, t, (pollMerged host entries budget s).2) := by
  unfold pollMerged
  split
  · rfl
  · have hsecond : host.onSecond.poll entries (some budget) (t, s) =
        ((host.poll entries (some budget) s).1, t, (host.poll entries (some budget) s).2) := rfl
    rw [hsecond]
    generalize host.poll entries (some budget) s = polled
    obtain ⟨result, s'⟩ := polled
    cases result with
    | reported | interrupted | failed => rfl

theorem tick_of_mergedPoll (handler : Handler α σ) {r : Reactor α} {s : σ}
    {report : StreamId → Readiness} (hpoll : (r.mergedPoll host s).1 = .ok report) :
    let now := host.clock (r.mergedPoll host s).2
    let outcome := serveAll handler now report (r.observed.map pruned) (r.mergedPoll host s).2
    r.tick host handler s =
      (outcome.1, { r with observed := outcome.2.1, lastTick := some now }, outcome.2.2) := by
  unfold tick
  unfold mergedPoll at hpoll ⊢
  dsimp only
  rw [List.flatMap_map]
  generalize pollMerged host _ _ s = polled at hpoll ⊢
  obtain ⟨outcome, s'⟩ := polled
  cases hpoll
  rfl

/-- One poll for many selectors does what a poll for each of them would do.  In
a tick whose poll does not fail, with a user who does not fail, every selector
has a count and a state as after a select of its own that finds its streams as
ready as the one poll did.  The tick returns the sum of the counts.  The
callbacks are, in the order of observation, one about readiness for each
selector with a stream that is ready, and one about the time for each other
that was not ready for so long, and the user gets the selector in that
state. -/
theorem merged_poll_is_own_poll (r : Reactor α) (host : Host σ) (handler : Handler α σ) (s : σ)
    {report : StreamId → Readiness} (hsound : ∀ o ∈ r.observed, o.selector.Sound)
    (hhandler : handler.Succeeds) (hpoll : (r.mergedPoll host s).1 = .ok report) :
    ∃ alone : Selector α → Nat × Selector α,
      (∀ o ∈ r.observed, o.selector.Alone report (alone o.selector)) ∧
      (r.tick host handler s).1 = .ok (r.observed.map fun o => (alone o.selector).1).sum ∧
      r.tick host.onSecond handler.noted ([], s) =
        ((r.tick host handler s).1, (r.tick host handler s).2.1,
          r.observed.filterMap fun o =>
            o.callback? (host.clock (r.mergedPoll host s).2) (alone o.selector),
          (r.tick host handler s).2.2) := by
  have hnoted : r.mergedPoll host.onSecond (([] : List (Callback α)), s) =
      (.ok report, [], (r.mergedPoll host s).2) := by
    rw [← hpoll]
    exact pollMerged_onSecond host _ _ _ s
  have htick := tick_of_mergedPoll handler hpoll
  have htickNoted := tick_of_mergedPoll handler.noted (congrArg Prod.fst hnoted)
  obtain ⟨hresult, hserved⟩ := serveAll_noted hhandler (host.clock (r.mergedPoll host s).2) report
    r.observed [] (r.mergedPoll host s).2
  refine ⟨fun sel => ((sel.polled report).ready.length, sel.polled report),
    fun o ho => (hsound o ho).alone report, ?_, ?_⟩
  · rw [htick]
    exact hresult
  · rw [htickNoted, htick, hnoted]
    dsimp only [Host.onSecond]
    rw [hserved, hresult, List.nil_append]

/-- A listener with a connection beside a pipe without data, and a user who
closes what is ready. -/
theorem merged_poll_is_own_poll_beside_idle :
    let idle : Selector Unit := run (σ := Sim.World) [.register ⟨⟨1⟩, .pipe, false⟩ .reading none]
    let waited : Selector Unit :=
      run (σ := Sim.World) [.register ⟨⟨2⟩, .listener, false⟩ .accepting none]
    let r : Reactor Unit :=
      ⟨[⟨⟨1⟩, idle, .zero, .zero⟩, ⟨⟨2⟩, waited, .zero, .zero⟩], 3, standardInterval, none, false⟩
    let world : Sim.World := { script := some [.ready [(⟨2⟩, { readable := true })]] }
    let handler : Handler Unit Sim.World :=
      { onReady := fun _ sel s => (.ok (), sel.closeStream ⟨2⟩, s) }
    let report : StreamId → Readiness := fun id =>
      ([(⟨2⟩, { readable := true })] : List (StreamId × Readiness)).lookup id |>.getD {}
    (r.mergedPoll Sim.World.host world).1 = .ok report ∧
    ∃ alone : Selector Unit → Nat × Selector Unit,
      (∀ o ∈ r.observed, o.selector.Alone report (alone o.selector)) ∧
      (r.tick Sim.World.host handler world).1 =
        .ok (r.observed.map fun o => (alone o.selector).1).sum ∧
      (r.tick Sim.World.host.onSecond handler.noted ([], world)).2.2.1 =
        [.timeout ⟨1⟩ (alone idle).2, .ready ⟨2⟩ (alone waited).2] := by
  intro idle waited r world handler report
  have hpoll : (r.mergedPoll Sim.World.host world).1 = .ok report := rfl
  have hsound : ∀ o ∈ r.observed, o.selector.Sound := by
    simp only [r, List.forall_mem_cons]
    exact ⟨Selector.sound_run _, Selector.sound_run _, nofun⟩
  have hhandler : handler.Succeeds := ⟨fun _ _ _ => rfl, fun _ _ _ => rfl⟩
  obtain ⟨alone, halone, hcount, hcalls⟩ :=
    merged_poll_is_own_poll r Sim.World.host handler world hsound hhandler hpoll
  refine ⟨hpoll, alone, halone, hcount, ?_⟩
  have hidle : (alone idle).1 = 0 := by
    have hselect := ((halone _ List.mem_cons_self).select Sim.World.host none world _ report rfl
      fun _ _ => rfl).1
    exact (Except.ok.inj hselect).symm
  have hwaited : (alone waited).1 = 1 := by
    have hselect := ((halone _ (List.mem_cons_of_mem _ List.mem_cons_self)).select Sim.World.host
      none world _ report rfl fun _ _ => rfl).1
    exact (Except.ok.inj hselect).symm
  rw [hcalls]
  simp only [r, List.filterMap_cons, Observed.callback?, hidle, hwaited]
  rfl

end Reactor

end Supervisor.Poll
