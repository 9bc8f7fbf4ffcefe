import Supervisor.Proofs.Backend.Fork
import Supervisor.Proofs.Lifecycle.Calls
import Supervisor.Proofs.Scheduler.Reports

/-!
# What backends reply

All that a backend emits tells of a worker that was created or has ended, or
is an order to stop, which only the control loop is answered with (`Reply`,
`Provided.replies`).  So on a bus with one of the backends

* the only event that wants a worker is the one that was raised
  (`creations_calls`), and the backend is called on it (`mem_creations_calls`);
* an order to stop comes of nothing but a turn of the control loop
  (`not_mem_of_raise`).
-/

namespace Supervisor

namespace Lifecycle

variable {σ : Type}

/-- What a backend may emit on an event. -/
inductive Reply (e : Event) : Event → Prop where
  | created (uid : WorkerId) : Reply e (.workerCreated uid)
  | terminated (uid : WorkerId) (code : Option Int32) : Reply e (.workerTerminated uid code)
  | stop : e = .schedulerLoop → Reply e .schedulerStop

/-- All that a listener emits are replies. -/
def Listener.Replies (l : Listener σ) : Prop :=
  ∀ e s, ∀ e' ∈ (l e s).1.emitted, Reply e e'

end Lifecycle

namespace Backend

open Lifecycle (Event Reply)

variable {σ : Type}

theorem Fork.replies (calls : ProcessCalls σ) : (Fork.react calls).Replies := by
  intro e s e' he
  have hstep := Fork.step_react calls e s.1 s.2
  generalize Fork.react calls e s = y at hstep he
  cases hstep with
  | forked _ =>
    obtain rfl := List.mem_singleton.mp he
    exact .created _
  | vanished _ =>
    obtain rfl := List.mem_singleton.mp he
    exact .terminated _ _
  | looped hsettle =>
    rcases List.mem_append.mp he with hend | hstop
    · have hends : e' ∈ (settle s.1.children (calls.reap s.2)).1 := by rwa [hsettle]
      obtain ⟨uid, code, rfl⟩ := Fork.eq_workerTerminated_of_mem_settle hends
      exact .terminated uid code
    · rw [Fork.eq_schedulerStop_of_mem_checkParent hstop]
      exact .stop rfl
  | notForked | signalled | started | ignored => cases he

namespace Spawn

theorem eq_workerTerminated_of_mem_buryAll {calls : ProgramCalls σ}
    {ended : List (WorkerId × Option Int32)} {b : Spawn} {s : σ} {e : Event}
    (h : e ∈ (buryAll calls ended b s).1) : ∃ uid code, e = .workerTerminated uid code := by
  induction ended generalizing b s with
  | nil => cases h
  | cons x ended ih =>
    rcases List.mem_cons.mp h with rfl | h
    · exact ⟨_, _, rfl⟩
    · exact ih h

theorem reply_create {calls : ProgramCalls σ} {settings : Worker.Settings} {b : Spawn} {s : σ}
    {e e' : Event} (h : e' ∈ (create calls settings b s).1.emitted) : Reply e e' := by
  unfold create at h
  split at h
  · cases h
  · dsimp only at h
    split at h
    · cases h
    · obtain rfl := List.mem_singleton.mp h
      exact .created _

theorem reply_terminate {calls : ProgramCalls σ} {uid : WorkerId} {hard : Bool} {b : Spawn}
    {s : σ} {e e' : Event} (h : e' ∈ (terminate calls uid hard b s).1.emitted) :
    Reply e e' := by
  unfold terminate at h
  split at h
  · obtain rfl := List.mem_singleton.mp h
    exact .terminated _ _
  · split at h
    · cases h
    · cases h

theorem reply_loop {calls : ProgramCalls σ} {b : Spawn} {s : σ} {e e' : Event}
    (h : e' ∈ (loop calls b s).1.emitted) : Reply e e' := by
  unfold loop at h
  split at h
  · cases h
  · obtain ⟨uid, code, rfl⟩ := eq_workerTerminated_of_mem_buryAll h
    exact .terminated uid code

theorem replies (calls : ProgramCalls σ) : (react calls).Replies := by
  intro e s e' he
  cases e with
  | workerCreate settings => exact reply_create he
  | workerTerminate uid hard => exact reply_terminate he
  | schedulerLoop => exact reply_loop he
  | kernelStart | schedulerStart | schedulerStop | workerCreated | workerInit | workerLoop
  | workerExit | workerTerminated => cases he

end Spawn

namespace Threads

theorem replies (calls : ThreadCalls σ) : (react calls).Replies := by
  intro e s e' he
  cases e with
  | workerCreate settings =>
    unfold react create at he
    dsimp only at he
    split at he
    · cases he
    · obtain rfl := List.mem_singleton.mp he
      exact .created _
  | workerTerminate uid hard =>
    unfold react terminate at he
    dsimp only at he
    split at he
    · cases he
    · obtain rfl := List.mem_singleton.mp he
      exact .terminated _ _
  | schedulerLoop =>
    obtain ⟨uid, _, hended⟩ := List.mem_filterMap.mp he
    obtain ⟨code, _, rfl⟩ := Option.map_eq_some_iff.mp hended
    exact .terminated uid code
  | kernelStart | schedulerStart | schedulerStop | workerCreated | workerInit | workerLoop
  | workerExit | workerTerminated => cases he

end Threads

end Backend

namespace Lifecycle

variable {σ : Type} {b : Bus σ}

/-! ## A backend on its bus -/

theorem Provided.replies (h : Provided b) : ∀ l ∈ b.listeners, l.Replies := by
  cases h with
  | fork calls => exact List.forall_mem_singleton.mpr (Backend.Fork.replies calls)
  | spawn calls => exact List.forall_mem_singleton.mpr (Backend.Spawn.replies calls)
  | threads calls => exact List.forall_mem_singleton.mpr (Backend.Threads.replies calls)

theorem Provided.chains (h : Provided b) (kind : Kind) :
    b.chains kind = if kind ∈ Backend.subscriptions.map Prod.fst then [⟨0, 0⟩] else [] := by
  cases h with
  | fork | spawn | threads => exact Backend.chains_attach _ kind

theorem Provided.complete (h : Provided b) : b.Complete := by
  intro kind handler hhandler
  have hlistener : b.listeners.length = 1 := by cases h <;> rfl
  rw [h.chains] at hhandler
  split at hhandler
  · rw [List.mem_singleton.mp hhandler, hlistener]
    exact Nat.one_pos
  · cases hhandler

/-- Whatever is emitted during a raise is a reply to something that a listener
was called on. -/
theorem Provided.exists_reply (h : Provided b) {e e' : Event} {s : σ}
    (he : e' ∈ Call.emissions (b.calls e s)) : ∃ c ∈ b.calls e s, Reply c.event e' := by
  obtain ⟨c, hc, he⟩ := List.mem_flatMap.mp he
  obtain ⟨l, hl, s₁, hreaction⟩ := (Bus.performs_calls h.complete e s).exists_reaction hc
  rw [← hreaction] at he
  exact ⟨c, hc, h.replies l hl c.event s₁ e' he⟩

/-! ## Creations -/

/-- The settings of the workers that were wanted during some calls. -/
def Call.creations (calls : List Call) : List Worker.Settings :=
  calls.filterMap fun c =>
    match c.event with
    | .workerCreate settings => some settings
    | _ => none

theorem Call.mem_creations {calls : List Call} {settings : Worker.Settings} :
    settings ∈ Call.creations calls ↔ ∃ c ∈ calls, c.event = .workerCreate settings := by
  unfold Call.creations
  rw [List.mem_filterMap]
  constructor
  · intro ⟨c, hc, hsettings⟩
    split at hsettings
    · rename_i hevent
      exact ⟨c, hc, hevent.trans (congrArg _ (Option.some.inj hsettings))⟩
    · cases hsettings
  · intro ⟨c, hc, hevent⟩
    exact ⟨c, hc, by rw [hevent]⟩

@[simp] theorem Call.creations_append (calls later : List Call) :
    Call.creations (calls ++ later) = Call.creations calls ++ Call.creations later :=
  List.filterMap_append

/-- No worker is wanted unless an event was raised that wants one. -/
theorem Provided.creations_calls (h : Provided b) {e : Event}
    (he : ∀ settings, e ≠ .workerCreate settings) (s : σ) :
    Call.creations (b.calls e s) = [] := by
  rw [List.eq_nil_iff_forall_not_mem]
  intro settings hsettings
  obtain ⟨c, hc, hevent⟩ := Call.mem_creations.mp hsettings
  rcases Bus.cause_of_calls h.complete hc with hraised | hemitted
  · exact he settings (hraised.symm.trans hevent)
  · obtain ⟨c', _, hreply⟩ := h.exists_reply hemitted
    rw [hevent] at hreply
    cases hreply

/-- The backend is called on every event that wants a worker. -/
theorem Provided.mem_creations_calls (h : Provided b) (settings : Worker.Settings) (s : σ) :
    settings ∈ Call.creations (b.calls (.workerCreate settings) s) := by
  obtain ⟨dispatched, visits, hcalls, hvisits, hhead, _⟩ :=
    Bus.calls_visits h.complete (.workerCreate settings) s
  rw [hcalls, Call.mem_creations]
  cases hvisits with
  | nil => cases hhead
  | @cons e calls _ visits hfirst _ =>
    obtain rfl : e = .workerCreate settings := Option.some.inj hhead
    cases calls with
    | nil =>
      have hchain : b.chains .workerCreate = [⟨0, 0⟩] := h.chains .workerCreate
      have hall := hfirst.full (List.forall_mem_nil _)
      rw [Event.kind, hchain] at hall
      cases hall
    | cons c calls =>
      exact ⟨c, by simp, hfirst.event c List.mem_cons_self⟩

/-! ## Orders to stop -/

/-- Only the control loop may be answered with an order to stop. -/
theorem Provided.not_mem_of_raise (h : Provided b) {e : Event} (he : e ≠ .schedulerLoop) {s : σ}
    {events : List Event} (hraise : (b.raise e s).1 = .ok events) : .schedulerStop ∉ events := by
  rw [Bus.emitted_of_ok h.complete hraise]
  intro hstop
  obtain ⟨c, hc, hreply⟩ := h.exists_reply hstop
  cases hreply with
  | stop hloop =>
    rcases Bus.cause_of_calls h.complete hc with hraised | hemitted
    · exact he (hraised.symm.trans hloop)
    · obtain ⟨c', _, hreply⟩ := h.exists_reply hemitted
      rw [hloop] at hreply
      cases hreply

end Lifecycle

end Supervisor
