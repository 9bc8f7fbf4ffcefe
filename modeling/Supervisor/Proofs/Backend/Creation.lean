import Mathlib.Data.List.Permutation
import Supervisor.Proofs.Backend.Fork
import Supervisor.Proofs.Lifecycle.Subscriptions
import Supervisor.Sim.Script

/-!
# What a creation that yields no worker leaves behind

Other listeners may share the bus with the forking backend, with any kinds,
priorities and behaviour.  They share the system with it, too, but not its
memory: the children change only when the backend itself is called.

* `children_of_performs`: the children are those known before, changed by what
  the backend told since, event by event.
* `children_of_failed_creation`: what asking for a worker in vain does to the
  children.  Some may be missing, because another listener ordered their end,
  and if the raise itself fails, it may do so after a child was forked.
* `failed_creation_changes_children` has the smallest run of either sort.
-/

namespace Supervisor.Lifecycle

/-- A subscription over the other component of a pair. -/
def Subscription.onSecond {σ τ : Type} (s : Subscription τ) : Subscription (σ × τ) :=
  ⟨s.listener.onSecond, s.kinds⟩

end Supervisor.Lifecycle

namespace Supervisor.Backend.Fork

open Lifecycle (Bus Call Event Kind Reaction Subscription)

variable {σ : Type}

/-! ## What is told of children -/

theorem children_ext {children children' : Table .worker Unit}
    (h : ∀ uid, children.contains uid = children'.contains uid) : children = children' := by
  apply Table.ext_find?
  intro uid
  have hsome := h uid
  unfold Table.contains at hsome
  generalize children.find? uid = v at hsome
  generalize children'.find? uid = v' at hsome
  cases v <;> cases v' <;> first | rfl | cases hsome

/-- A creation adds a child, a reported end takes it away. -/
def book (children : Table .worker Unit) : Event → Table .worker Unit
  | .workerCreated uid => children.insert uid ()
  | .workerTerminated uid _ => children.erase uid
  | _ => children

/-- Whether an event says that there is such a child, if it says anything. -/
def news (uid : WorkerId) : Event → Option Bool
  | .workerCreated uid' => if uid' = uid then some true else none
  | .workerTerminated uid' _ => if uid' = uid then some false else none
  | _ => none

/-- What was said last of a child. -/
def newest (uid : WorkerId) (events : List Event) : Option Bool :=
  (events.filterMap (news uid)).getLast?

theorem contains_book (children : Table .worker Unit) (uid : WorkerId) (e : Event) :
    (book children e).contains uid = (news uid e).getD (children.contains uid) := by
  cases e with
  | workerCreated uid' =>
    rw [Bool.eq_iff_iff, book, Table.contains_insert, news]
    by_cases huid : uid' = uid
    · simp [huid]
    · simp [huid, Ne.symm huid]
  | workerTerminated uid' code =>
    rw [Bool.eq_iff_iff, book, Table.contains_erase, news]
    by_cases huid : uid' = uid
    · simp [huid]
    · simp [huid, Ne.symm huid]
  | kernelStart | schedulerStart | schedulerLoop | schedulerStop | workerCreate | workerInit
  | workerLoop | workerExit | workerTerminate => rfl

theorem newest_cons (uid : WorkerId) (e : Event) (events : List Event) (there : Bool) :
    (newest uid (e :: events)).getD there =
      (newest uid events).getD ((news uid e).getD there) := by
  unfold newest
  cases hnews : news uid e with
  | none => rw [List.filterMap_cons_none hnews]; rfl
  | some v =>
    rw [List.filterMap_cons_some hnews, List.getLast?_cons]
    rfl

/-- The last word on a child counts. -/
theorem contains_foldl_book (uid : WorkerId) (events : List Event)
    (children : Table .worker Unit) :
    (events.foldl book children).contains uid =
      (newest uid events).getD (children.contains uid) := by
  induction events generalizing children with
  | nil => rfl
  | cons e events ih => rw [List.foldl_cons, ih, contains_book, newest_cons]

theorem mem_of_newest {uid : WorkerId} {events : List Event} {there : Bool}
    (h : newest uid events = some there) : ∃ e ∈ events, news uid e = some there :=
  List.mem_filterMap.mp (List.mem_of_getLast? h)

theorem eq_of_news_true {uid : WorkerId} {e : Event} (h : news uid e = some true) :
    e = .workerCreated uid := by
  unfold news at h
  split at h
  · split at h
    · rename_i huid
      rw [huid]
    · cases h
  · split at h <;> cases h
  · cases h

theorem eq_of_news_false {uid : WorkerId} {e : Event} (h : news uid e = some false) :
    ∃ code, e = .workerTerminated uid code := by
  unfold news at h
  split at h
  · split at h <;> cases h
  · split at h
    · rename_i huid
      exact ⟨_, by rw [huid]⟩
    · cases h
  · cases h

theorem settle_book (answers : Reaping σ) (children : Table .worker Unit) :
    (settle children answers).2.1 = (settle children answers).1.foldl book children := by
  induction answers generalizing children with
  | nobody s => rfl
  | failed s => rfl
  | child pid code next ih =>
    by_cases hknown : children.contains (workerOf pid) = true
    · rw [settle_child_of_known hknown]
      exact ih _
    · rw [settle_child_of_unknown hknown]
      exact ih _

/-- A reaction changes the children as it tells. -/
theorem Step.children_eq {calls : ProcessCalls σ} {f f' : Fork} {s s' : σ} {e : Event}
    {r : Reaction} (h : Step calls f s e (r, f', s')) :
    f'.children = r.emitted.foldl book f.children := by
  cases h with
  | forked _ | notForked _ | vanished _ | signalled _ _ | started | ignored => rfl
  | looped hsettle =>
    have hbook := settle_book (calls.reap s) f.children
    rw [hsettle] at hbook
    have hstop : ∀ (known : Option Int32) (current : Int32) (children : Table .worker Unit),
        (checkParent known current).1.foldl book children = children := by
      intro known current children
      unfold checkParent
      split
      · rfl
      · split <;> rfl
    rw [List.foldl_append, hstop]
    exact hbook

/-- An order that a child ends, or that the control loop takes a turn, in which
ends are found. -/
def IsOrder (uid : WorkerId) (e : Event) : Prop :=
  e = .schedulerLoop ∨ ∃ hard, e = .workerTerminate uid hard

/-- A reaction reports the end of a child to an order only. -/
theorem Step.order_of_terminated {calls : ProcessCalls σ} {f : Fork} {s : σ} {e : Event}
    {r : Reaction} {y : Fork × σ} (h : Step calls f s e (r, y)) {uid : WorkerId}
    {code : Option Int32} (he : .workerTerminated uid code ∈ r.emitted) : IsOrder uid e := by
  cases h with
  | forked _ => cases List.mem_singleton.mp he
  | vanished _ =>
    cases List.mem_singleton.mp he
    exact Or.inr ⟨_, rfl⟩
  | looped _ => exact Or.inl rfl
  | notForked _ | signalled _ _ | started | ignored => cases he

/-- The backend gives no orders. -/
theorem Step.not_order {calls : ProcessCalls σ} {f : Fork} {s : σ} {e e' : Event}
    {r : Reaction} {y : Fork × σ} (h : Step calls f s e (r, y)) (he : e' ∈ r.emitted)
    (uid : WorkerId) : ¬ IsOrder uid e' := by
  have hcreated : ∀ uid', ¬ IsOrder uid (.workerCreated uid') := by simp [IsOrder]
  have hterminated : ∀ uid' code, ¬ IsOrder uid (.workerTerminated uid' code) := by simp [IsOrder]
  cases h with
  | forked _ => exact List.mem_singleton.mp he ▸ hcreated _
  | vanished _ => exact List.mem_singleton.mp he ▸ hterminated _ _
  | notForked _ | signalled _ _ | started | ignored => cases he
  | looped hsettle =>
    rcases List.mem_append.mp he with hend | hstop
    · have hends : e' ∈ (settle f.children (calls.reap s)).1 := by rwa [hsettle]
      obtain ⟨uid', code, rfl⟩ := eq_workerTerminated_of_mem_settle hends
      exact hterminated uid' code
    · rw [eq_schedulerStop_of_mem_checkParent hstop]
      simp [IsOrder]

/-! ## The backend among other listeners -/

/-- The bus with the backend and, subscribed after it, other listeners. -/
def busAmong (calls : ProcessCalls σ) (others : List (Subscription σ)) : Bus (Fork × σ) :=
  (bus calls).subscribeAll (others.map .onSecond)

/-- The calls of the backend. -/
def own (log : List Call) : List Call :=
  log.filter (·.listener = 0)

/-- The call emits an order. -/
def Orders (uid : WorkerId) (c : Call) : Prop :=
  ∃ e ∈ c.reaction.emitted, IsOrder uid e

/-- What the backend told in its calls, in order. -/
def told (log : List Call) : List Event :=
  Call.emissions (own log)

section

variable {calls : ProcessCalls σ} {others : List (Subscription σ)}

theorem busAmong_eq (calls : ProcessCalls σ) (others : List (Subscription σ)) :
    busAmong calls others =
      Bus.empty.subscribeAll
        (⟨react calls, Lifecycle.Backend.subscriptions⟩ :: others.map .onSecond) :=
  rfl

theorem complete_busAmong (calls : ProcessCalls σ) (others : List (Subscription σ)) :
    (busAmong calls others).Complete := by
  rw [busAmong_eq]
  exact Bus.complete_subscribeAll _

/-- A call is one of the backend or leaves its memory alone. -/
theorem call_cases {c : Call} {l : Lifecycle.Listener (Fork × σ)} {x y : Fork × σ}
    (hl : (busAmong calls others).listeners[c.listener]? = some l)
    (hcall : l c.event x = (c.reaction, y)) :
    (c.listener = 0 ∧ Step calls x.1 x.2 c.event (c.reaction, y)) ∨
      (c.listener ≠ 0 ∧ y.1 = x.1) := by
  rw [busAmong_eq, Bus.listeners_subscribeAll, List.map_cons] at hl
  cases hc : c.listener with
  | zero =>
    rw [hc] at hl
    cases hl
    exact Or.inl ⟨rfl, hcall ▸ step_react calls c.event x.1 x.2⟩
  | succ i =>
    rw [hc, List.getElem?_cons_succ, List.map_map] at hl
    obtain ⟨s, _, rfl⟩ := List.mem_map.mp (List.mem_of_getElem? hl)
    exact Or.inr ⟨Nat.succ_ne_zero i, by rw [← (Prod.mk.inj hcall).2]⟩

/-- The children are those known before, changed by what the backend told. -/
theorem children_of_performs {log : List Call} {x y : Fork × σ}
    (h : (busAmong calls others).Performs x log y) :
    y.1.children = (told log).foldl book x.1.children := by
  induction h with
  | nil x => rfl
  | @cons c log l x z y hl hcall _ ih =>
    rcases call_cases hl hcall with ⟨hown, hstep⟩ | ⟨hother, hsame⟩
    · have htold : told (c :: log) = c.reaction.emitted ++ told log := by
        simp [told, own, Call.emissions, hown]
      rw [htold, List.foldl_append, ← hstep.children_eq, ih]
    · have htold : told (c :: log) = told log := by simp [told, own, hother]
      rw [htold, ih, hsame]

theorem step_of_performs {log : List Call} {x y : Fork × σ}
    (h : (busAmong calls others).Performs x log y) {c : Call} (hc : c ∈ log)
    (hown : c.listener = 0) : ∃ f s z, Step calls f s c.event (c.reaction, z) := by
  induction h with
  | nil x => cases hc
  | @cons d log l x z y hl hcall _ ih =>
    rcases List.mem_cons.mp hc with rfl | hc
    · rcases call_cases hl hcall with ⟨_, hstep⟩ | ⟨hother, _⟩
      · exact ⟨_, _, _, hstep⟩
      · exact absurd hown hother
    · exact ih hc

theorem exists_own_of_told {log : List Call} {e : Event} (h : e ∈ told log) :
    ∃ c ∈ log, c.listener = 0 ∧ e ∈ c.reaction.emitted := by
  obtain ⟨c, hc, he⟩ := List.mem_flatMap.mp h
  obtain ⟨hc, hown⟩ := List.mem_filter.mp hc
  exact ⟨c, hc, of_decide_eq_true hown, he⟩

/-! ## Asking in vain -/

theorem startWorker_none {b : Bus σ} {settings : Worker.Settings} {s : σ}
    (h : (b.startWorker settings s).1 = none) :
    (b.startWorker settings s).2 = (b.raise (.workerCreate settings) s).2 ∧
      ∀ events, (b.raise (.workerCreate settings) s).1 = .ok events →
        ∀ uid, .workerCreated uid ∉ events := by
  unfold Bus.startWorker at h ⊢
  rcases hraise : b.raise (.workerCreate settings) s with ⟨error | events, s'⟩
  · exact ⟨rfl, nofun⟩
  · rw [hraise] at h
    simp only at h ⊢
    cases hfind : events.findSome? Event.created? with
    | none =>
      refine ⟨rfl, fun events' heq uid huid => ?_⟩
      obtain rfl := Except.ok.inj heq
      have hnone := List.findSome?_eq_none_iff.mp hfind _ huid
      cases hnone
    | some uid =>
      rw [hfind] at h
      cases h

/-- Who is a child only afterwards was forked in this cascade. -/
theorem forked_of_gained {log : List Call} {x y : Fork × σ}
    (h : (busAmong calls others).Performs x log y) {uid : WorkerId}
    (hbefore : x.1.children.contains uid = false) (hafter : y.1.children.contains uid = true) :
    ∃ c ∈ log, c.listener = 0 ∧ .workerCreated uid ∈ c.reaction.emitted := by
  rw [children_of_performs h, contains_foldl_book, hbefore] at hafter
  cases hnewest : newest uid (told log) with
  | none =>
    rw [hnewest] at hafter
    cases hafter
  | some there =>
    rw [hnewest] at hafter
    obtain rfl : there = true := hafter
    obtain ⟨e, he, hnews⟩ := mem_of_newest hnewest
    rw [eq_of_news_true hnews] at he
    exact exists_own_of_told he

/-- Who is a child no longer was reported by the backend. -/
theorem reported_of_lost {log : List Call} {x y : Fork × σ}
    (h : (busAmong calls others).Performs x log y) {uid : WorkerId}
    (hbefore : x.1.children.contains uid = true) (hafter : y.1.children.contains uid = false) :
    ∃ c ∈ log, c.listener = 0 ∧ ∃ code, .workerTerminated uid code ∈ c.reaction.emitted := by
  rw [children_of_performs h, contains_foldl_book, hbefore] at hafter
  cases hnewest : newest uid (told log) with
  | none =>
    rw [hnewest] at hafter
    cases hafter
  | some there =>
    rw [hnewest] at hafter
    obtain rfl : there = false := hafter
    obtain ⟨e, he, hnews⟩ := mem_of_newest hnewest
    obtain ⟨code, rfl⟩ := eq_of_news_false hnews
    obtain ⟨c, hc, hown, he⟩ := exists_own_of_told he
    exact ⟨c, hc, hown, code, he⟩

/-- An end is reported because another listener ordered it. -/
theorem exists_order {settings : Worker.Settings} {x : Fork × σ} {c : Call}
    (hc : c ∈ (busAmong calls others).calls (.workerCreate settings) x) (hown : c.listener = 0)
    {uid : WorkerId} {code : Option Int32} (he : .workerTerminated uid code ∈ c.reaction.emitted) :
    ∃ d ∈ (busAmong calls others).calls (.workerCreate settings) x,
      d.listener ≠ 0 ∧ Orders uid d := by
  have hperforms := Bus.performs_calls (complete_busAmong calls others) (.workerCreate settings) x
  obtain ⟨_, _, _, hstep⟩ := step_of_performs hperforms hc hown
  have horder := hstep.order_of_terminated he
  rcases Bus.cause_of_calls (complete_busAmong calls others) hc with hraised | hemitted
  · rw [hraised] at horder
    rcases horder with horder | ⟨hard, horder⟩ <;> cases horder
  · obtain ⟨d, hd, hevent⟩ := List.mem_flatMap.mp hemitted
    refine ⟨d, hd, fun hd0 => ?_, c.event, hevent, horder⟩
    obtain ⟨_, _, _, hstep'⟩ := step_of_performs hperforms hd hd0
    exact hstep'.not_order hevent uid horder

/-- A cascade that goes through tells of every child that was forked in it. -/
theorem creation_failed {settings : Worker.Settings} {x : Fork × σ}
    (hcreated : ∀ events,
      ((busAmong calls others).raise (.workerCreate settings) x).1 = .ok events →
        ∀ uid, .workerCreated uid ∉ events)
    {c : Call} (hc : c ∈ (busAmong calls others).calls (.workerCreate settings) x)
    {uid : WorkerId} (he : .workerCreated uid ∈ c.reaction.emitted) :
    ∃ error, ((busAmong calls others).raise (.workerCreate settings) x).1 = .error error := by
  cases hraise : ((busAmong calls others).raise (.workerCreate settings) x).1 with
  | error error => exact ⟨error, rfl⟩
  | ok events =>
    have hevents := Bus.emitted_of_ok (complete_busAmong calls others) hraise
    refine absurd ?_ (hcreated events hraise uid)
    rw [hevents]
    exact List.mem_flatMap.mpr ⟨c, hc, he⟩

/-- Asking for a worker in vain takes away only children whose end the backend
reports on an order of another listener: that they end, or that the control
loop takes a turn.  What comes in addition was forked in a cascade that failed
later on, by the last listener called or for too many events.  So without such
orders the children are as they were, provided that the cascade goes through
or does not get as far as a fork. -/
theorem children_of_failed_creation (calls : ProcessCalls σ) (others : List (Subscription σ))
    (settings : Worker.Settings) (x : Fork × σ)
    (hnone : ((busAmong calls others).startWorker settings x).1 = none) :
    let b := busAmong calls others
    let after := (b.startWorker settings x).2.1
    let log := b.calls (.workerCreate settings) x
    (∀ uid, x.1.children.contains uid = true → after.children.contains uid = false →
        (∃ c ∈ log, c.listener = 0 ∧ ∃ code, .workerTerminated uid code ∈ c.reaction.emitted) ∧
          ∃ d ∈ log, d.listener ≠ 0 ∧ Orders uid d) ∧
      (∀ uid, x.1.children.contains uid = false → after.children.contains uid = true →
        (∃ c ∈ log, c.listener = 0 ∧ .workerCreated uid ∈ c.reaction.emitted) ∧
          ∃ error, (b.raise (.workerCreate settings) x).1 = .error error ∧
            ((∃ c, log.getLast? = some c ∧ c.reaction.failure = some error) ∨
              error = .protocol .endlessCascade)) ∧
      ((∀ d ∈ log, d.listener ≠ 0 → ∀ uid, ¬ Orders uid d) →
        ((∃ events, (b.raise (.workerCreate settings) x).1 = .ok events) ∨
          ∀ c ∈ log, c.listener = 0 → ∀ uid, .workerCreated uid ∉ c.reaction.emitted) →
        after.children = x.1.children) := by
  intro b after log
  obtain ⟨hstate, hcreated⟩ := startWorker_none hnone
  have hperforms : b.Performs x log (b.startWorker settings x).2 := by
    rw [hstate]
    exact Bus.performs_calls (complete_busAmong calls others) _ x
  have hlost : ∀ uid, x.1.children.contains uid = true → after.children.contains uid = false →
      (∃ c ∈ log, c.listener = 0 ∧ ∃ code, .workerTerminated uid code ∈ c.reaction.emitted) ∧
        ∃ d ∈ log, d.listener ≠ 0 ∧ Orders uid d := by
    intro uid hbefore hafter
    obtain ⟨c, hc, hown, code, he⟩ := reported_of_lost hperforms hbefore hafter
    exact ⟨⟨c, hc, hown, code, he⟩, exists_order hc hown he⟩
  refine ⟨hlost, fun uid hbefore hafter => ?_, fun hquiet hthrough => ?_⟩
  · obtain ⟨c, hc, hown, he⟩ := forked_of_gained hperforms hbefore hafter
    obtain ⟨error, hraise⟩ := creation_failed hcreated hc he
    exact ⟨⟨c, hc, hown, he⟩, error, hraise,
      Bus.failed_of_error (complete_busAmong calls others) hraise⟩
  · refine children_ext fun uid => ?_
    cases hbefore : x.1.children.contains uid with
    | true =>
      by_contra hafter
      obtain ⟨_, d, hd, hother, horders⟩ := hlost uid hbefore (Bool.eq_false_iff.mpr hafter)
      exact hquiet d hd hother uid horders
    | false =>
      by_contra hafter
      obtain ⟨c, hc, hown, he⟩ :=
        forked_of_gained hperforms hbefore ((Bool.not_eq_false _).mp hafter)
      rcases hthrough with ⟨events, hok⟩ | hnever
      · obtain ⟨error, hraise⟩ := creation_failed hcreated hc he
        cases hok.symm.trans hraise
      · exact hnever c hc hown uid he

end

/-! ## Runs -/

/-- A listener that does the same on every event of a kind. -/
def stubborn (kind : Kind) (priority : Int32) (r : Reaction) : Subscription Sim.Processes :=
  ⟨fun _ p => (r, p), [(kind, priority)]⟩

/-- A reaction that fails. -/
def objection : Reaction :=
  { failure := some (.protocol (.custom "no workers today")) }

def wanted : Worker.Settings :=
  ⟨"echo", .loopback, 0, .ofMillis 10⟩

/-- The system is about to give out one pid. -/
def beforeFork : Fork × Sim.Processes :=
  (.empty, { forks := [some 100] })

/-- There is one child, whose process has vanished. -/
def beforeOrder : Fork × Sim.Processes :=
  ({ Fork.empty with children := Table.insert ∅ (workerOf 7) () }, { kills := [.nobody] })

/-- A listener that runs first and fails keeps the backend from forking: the
children stay as they were. -/
theorem children_of_refused_creation :
    let out := (busAmong Sim.Processes.calls [stubborn .workerCreate 10 objection]).startWorker
      wanted beforeFork
    out.1 = none ∧ out.2.1.children = beforeFork.1.children := by
  have hnone : ((busAmong Sim.Processes.calls
      [stubborn .workerCreate 10 objection]).startWorker wanted beforeFork).1 = none := by cbv
  have hcalls : (busAmong Sim.Processes.calls [stubborn .workerCreate 10 objection]).calls
      (.workerCreate wanted) beforeFork = [⟨1, .workerCreate wanted, objection⟩] := by cbv
  refine ⟨hnone, (children_of_failed_creation _ _ _ _ hnone).2.2 ?_ (Or.inr ?_)⟩
  · rw [hcalls]
    rintro d hd _ uid ⟨e, he, _⟩
    rw [List.mem_singleton.mp hd] at he
    cases he
  · rw [hcalls]
    intro c hc hown
    rw [List.mem_singleton.mp hc] at hown
    cases hown

/-- A listener orders the end of a child in place of the creation, and the child
is gone.  Another one fails on the creation of a worker, and the child stays
although the caller gets no id. -/
theorem failed_creation_changes_children :
    let ordered := (busAmong Sim.Processes.calls [stubborn .workerCreate 10
      { emitted := [.workerTerminate (workerOf 7) true], stop := true }]).startWorker
        wanted beforeOrder
    let objected := (busAmong Sim.Processes.calls
      [stubborn .workerCreated 0 objection]).startWorker wanted beforeFork
    (ordered.1 = none ∧ beforeOrder.1.children.keys = [workerOf 7] ∧
        ordered.2.1.children.keys = []) ∧
      objected.1 = none ∧ beforeFork.1.children.keys = [] ∧
        objected.2.1.children.keys = [workerOf 100] := by
  have hordered : (busAmong Sim.Processes.calls [stubborn .workerCreate 10
      { emitted := [.workerTerminate (workerOf 7) true], stop := true }]).startWorker
        wanted beforeOrder = (none, .empty, { signals := [(7, .kill)] }) := by cbv
  have hobjected : (busAmong Sim.Processes.calls
      [stubborn .workerCreated 0 objection]).startWorker wanted beforeFork =
        (none, { Fork.empty with children := Table.insert ∅ (workerOf 100) () }, {}) := by cbv
  exact ⟨⟨congrArg (·.1) hordered, rfl, congrArg (·.2.1.children.keys) hordered⟩,
    congrArg (·.1) hobjected, rfl, congrArg (·.2.1.children.keys) hobjected⟩

end Supervisor.Backend.Fork
