import Supervisor.Backend.Fork
import Supervisor.Backend.Spawn
import Supervisor.Backend.Thread
import Supervisor.Proofs.Pool.Collection
import Supervisor.Scheduler

/-!
# What a report changes

The scheduler takes an envelope in: a status report of its sender goes to the
collection of workers, and an event tells the backend about it.  None of the
backends reacts to that (`raise_workerLoop`, `raise_workerExit`), so all that
can change is the record of the sender (`find?_take`).
-/

namespace Supervisor

namespace Lifecycle

variable {σ : Type}

/-- The buses with one of the backends as the only listener. -/
inductive Provided : {σ : Type} → Bus σ → Prop where
  | fork {σ : Type} (calls : Backend.ProcessCalls σ) :
      Provided (Backend.Fork.backend calls).attach
  | spawn {σ : Type} (calls : Backend.ProgramCalls σ) :
      Provided (Backend.Spawn.backend calls).attach
  | threads {σ : Type} (calls : Backend.ThreadCalls σ) :
      Provided (Backend.Threads.backend calls).attach

/-- What a backend does not react to causes nothing. -/
theorem raise_attach_workerLoop {b : Backend σ}
    (h : ∀ uid s, b.react (.workerLoop uid) s = ({}, s)) (uid : WorkerId) (s : σ) :
    b.attach.raise (.workerLoop uid) s = (.ok [], s) := by
  have hchain : b.attach.chains .workerLoop = [⟨0, 0⟩] := b.chains_attach .workerLoop
  have hlistener : b.attach.listeners = [b.react] := rfl
  have hdispatch : b.attach.dispatch (.workerLoop uid) s = (.ok [], s) := by
    rw [Bus.dispatch, Event.kind, hchain]
    simp only [Bus.runChain, hlistener, List.getElem?_cons_zero, h]
    rfl
  rw [Bus.raise, hdispatch]
  rfl

/-- Nobody listens to exits. -/
theorem raise_attach_workerExit (b : Backend σ) (uid : WorkerId) (s : σ) :
    b.attach.raise (.workerExit uid) s = (.ok [], s) := by
  have hchain : b.attach.chains .workerExit = [] := b.chains_attach .workerExit
  rw [Bus.raise, Bus.dispatch, Event.kind, hchain]
  rfl

theorem Provided.raise_workerLoop {bus : Bus σ} (h : Provided bus) (uid : WorkerId) (s : σ) :
    bus.raise (.workerLoop uid) s = (.ok [], s) := by
  cases h with
  | fork | spawn | threads => exact raise_attach_workerLoop (fun _ _ => rfl) uid s

theorem Provided.raise_workerExit {bus : Bus σ} (h : Provided bus) (uid : WorkerId) (s : σ) :
    bus.raise (.workerExit uid) s = (.ok [], s) := by
  cases h with
  | fork | spawn | threads => exact raise_attach_workerExit _ uid s

end Lifecycle

namespace Pool.Collection

open Worker (Record)

/-- A report is about one worker. -/
theorem find?_update_of_ne {c c' : Collection} {report : Record} (h : c.update report = .ok c')
    {uid : WorkerId} (hne : uid ≠ report.uid) : c'.find? uid = c.find? uid := by
  rcases update_eq_ok h with rfl | ⟨r, _, _, rfl⟩
  · rfl
  · rw [find?_put, if_neg hne]

end Pool.Collection

namespace Scheduler.Core

open Lifecycle (Provided)

variable {σ : Type} {p : Premises σ}

/-- Telling the backend about a report changes nothing. -/
theorem raise_report (hbus : Provided p.bus) (c : Core) (report : Worker.Record) (s : σ) :
    c.raise p (if report.status = .exiting then .workerExit report.uid
      else .workerLoop report.uid) s = (.ok (), c, s) := by
  by_cases hexits : report.status = .exiting
  · rw [if_pos hexits, raise, hbus.raise_workerExit]
    rfl
  · rw [if_neg hexits, raise, hbus.raise_workerLoop]
    rfl

/-- Whatever an envelope says, the scheduler takes it for the sender's word
about itself. -/
theorem find?_take (hbus : Provided p.bus) (c : Core) (e : Envelope) (s : σ) {uid : WorkerId}
    (hne : uid ≠ e.sender) : (c.take p e s).1.workers.find? uid = c.workers.find? uid := by
  unfold take
  split
  · rename_i report _
    split
    · rfl
    · rename_i hsender
      split
      · rfl
      · rename_i workers hupdate
        dsimp only
        rw [raise_report hbus]
        have hother : uid ≠ report.uid := fun h => hne (h.trans (not_not.mp hsender))
        exact Pool.Collection.find?_update_of_ne hupdate hother
  · rfl

end Scheduler.Core

end Supervisor
