import Mathlib.Data.List.Chain
import Supervisor.Proofs.Pool.Collection

/-!
# What a collection records of a worker

A worker's records are followed through any operations on a collection, from
the moment the worker is taken in until it is forgotten.

* `Status.Moves` is the status machine.
* `Step` lists what an operation can return and do, and `step_perform` says
  that there is nothing else.  `Step.find?_of_ne` and `Step.follows` are the two
  cases of one worker's record: the operation is about another worker, or the
  record stays and may change.
* `isChain_records` follows a record through a whole run, and
  `lifetimes_follow_machine` collects all that holds of a run.  The run of
  `waiting_may_exit` shows why a worker may exit while it waits.
-/

namespace Supervisor.Status

/-- The moves of a worker that takes tasks and exits from one of them, and the
move to `terminated` that is open to all. -/
inductive InOrder : Status → Status → Prop where
  | ready : InOrder .new .waiting
  | take : InOrder .waiting .running
  | finish : InOrder .running .waiting
  | leave : InOrder .running .exiting
  | terminate {s : Status} : s ≠ .terminated → InOrder s .terminated

/-- The moves of the status machine.  A worker may also exit while it waits
for a task. -/
def Moves (s t : Status) : Prop :=
  InOrder s t ∨ (s = .waiting ∧ t = .exiting)

/-- What may become of a status is a move, or no move at all. -/
theorem moves_of_canBecome {s t : Status} (h : s.canBecome t = true) : s = t ∨ s.Moves t := by
  unfold canBecome at h
  split at h
  case h_1 => cases h
  case h_2 hs => exact Or.inr (Or.inl (.terminate hs))
  case h_3 | h_4 | h_5 | h_6 => exact Or.inl rfl
  case h_7 => exact Or.inr (Or.inl .ready)
  case h_8 => exact Or.inr (Or.inl .take)
  case h_9 => exact Or.inr (Or.inl .finish)
  case h_10 => exact Or.inr (Or.inr ⟨rfl, rfl⟩)
  case h_11 => exact Or.inr (Or.inl .leave)
  case h_12 => cases h

end Supervisor.Status

namespace Supervisor.Pool.Collection

open Supervisor.Worker (Record)

variable {c c' : Collection}

/-! ## Operations -/

/-- The operations that change a collection. -/
inductive Operation where
  | insert (r : Record)
  | update (report : Record)
  | markTerminated (uid : WorkerId) (now : Millis)
  | remove (uid : WorkerId)
  | clear

/-- The worker that an operation is about. -/
def Operation.target? : Operation → Option WorkerId
  | .insert r => some r.uid
  | .update report => some report.uid
  | .markTerminated uid _ => some uid
  | .remove uid => some uid
  | .clear => none

/-- Whether the operation does not insert a worker that is tracked. -/
def Operation.Untracked (c : Collection) : Operation → Prop
  | .insert r => c.find? r.uid = none
  | _ => True

/-- The outcome of an operation that may be refused: the collection is then
the one that there was. -/
def orKept (c : Collection) : Except Error Collection → Except Error Unit × Collection
  | .ok c' => (.ok (), c')
  | .error e => (.error e, c)

/-- What an operation returns, and the collection after it. -/
def perform (c : Collection) : Operation → Except Error Unit × Collection
  | .insert r => c.orKept (c.insert r)
  | .update report => c.orKept (c.update report)
  | .markTerminated uid now => (.ok (), c.markTerminated uid now)
  | .remove uid => (.ok (), c.remove uid)
  | .clear => (.ok (), c.clear)

/-- All that an operation can return and do. -/
inductive Step (c : Collection) : Operation → Except Error Unit × Collection → Prop where
  | inserted {r : Record} : c.find? r.uid ≠ none ∨ c.size < c.max →
      Step c (.insert r) (.ok (), c.put r)
  | full {r : Record} : c.find? r.uid = none → c.max ≤ c.size →
      Step c (.insert r) (.error (.poolFull c.max), c)
  | reported {report r : Record} : c.find? report.uid = some r →
      r.status.canBecome report.status = true →
      Step c (.update report) (.ok (), c.put { report with createdAt := r.createdAt })
  | late {report r : Record} : c.find? report.uid = some r → r.status = .terminated →
      Step c (.update report) (.ok (), c)
  | unknown {report : Record} : c.find? report.uid = none →
      Step c (.update report) (.error (.protocol .unknownWorker), c)
  | illegal {report r : Record} : c.find? report.uid = some r →
      r.status.canBecome report.status = false →
      Step c (.update report) (.error (.invalidTransition report.uid r.status report.status), c)
  | marked {uid : WorkerId} {now : Millis} :
      Step c (.markTerminated uid now) (.ok (), c.markTerminated uid now)
  | removed {uid : WorkerId} : Step c (.remove uid) (.ok (), c.remove uid)
  | cleared : Step c .clear (.ok (), c.clear)

theorem step_perform (c : Collection) (op : Operation) : Step c op (c.perform op) := by
  cases op with
  | insert r =>
    show Step c _ (c.orKept (c.insert r))
    unfold insert
    split
    · rename_i hroom
      exact .inserted (hroom.imp_left Option.isSome_iff_ne_none.mp)
    · rename_i hfull
      rw [not_or, Nat.not_lt] at hfull
      exact .full (Option.not_isSome_iff_eq_none.mp hfull.1) hfull.2
  | update report =>
    show Step c _ (c.orKept (c.update report))
    unfold update
    split
    · rename_i hfind
      exact .unknown hfind
    · rename_i r hfind
      split
      · rename_i hterminated
        exact .late hfind hterminated
      · split
        · rename_i hstatus
          exact .reported hfind hstatus
        · rename_i hstatus
          exact .illegal hfind (Bool.eq_false_iff.mpr hstatus)
  | markTerminated uid now => exact .marked
  | remove uid => exact .removed
  | clear => exact .cleared

theorem Step.eq_of_error {op : Operation} {e : Error} (h : Step c op (.error e, c')) : c' = c := by
  cases h <;> rfl

theorem Step.max_eq {op : Operation} {out : Except Error Unit} (h : Step c op (out, c')) :
    c'.max = c.max := by
  cases h <;> rfl

theorem Step.sound {op : Operation} {out : Except Error Unit} (h : Step c op (out, c'))
    (hsound : c.Sound) : c'.Sound := by
  cases h with
  | inserted hroom => exact hsound.put hroom
  | reported hfind _ => exact hsound.put_of_tracked hfind
  | full _ _ => exact hsound
  | late _ _ => exact hsound
  | unknown _ => exact hsound
  | illegal _ _ => exact hsound
  | marked => exact hsound.markTerminated _ _
  | removed => exact hsound.remove _
  | cleared => exact sound_empty _

/-! ## The record of one worker -/

/-- An operation about one worker leaves the records of the others. -/
theorem Step.find?_of_ne {op : Operation} {out : Except Error Unit} (h : Step c op (out, c'))
    {target uid : WorkerId} (htarget : op.target? = some target) (hne : uid ≠ target) :
    c'.find? uid = c.find? uid := by
  cases h with
  | inserted _ =>
    cases htarget
    rw [find?_put, if_neg hne]
  | reported _ _ =>
    cases htarget
    rw [find?_put, if_neg hne]
  | marked =>
    cases htarget
    rw [find?_markTerminated, if_neg hne]
  | removed =>
    cases htarget
    rw [find?_remove, if_neg hne]
  | cleared => cases htarget
  | full _ _ => rfl
  | late _ _ => rfl
  | unknown _ => rfl
  | illegal _ _ => rfl

/-- One record of a worker may be followed by another: the status machine
allows it, and the worker is as old as it was. -/
structure Follows (r r' : Record) : Prop where
  status : r.status = r'.status ∨ r.status.Moves r'.status
  createdAt : r.createdAt = r'.createdAt

theorem Follows.refl (r : Record) : Follows r r := ⟨Or.inl rfl, rfl⟩

theorem follows_setStatus? (r : Record) (next : Status) (now : Millis) :
    Follows r ((r.setStatus? next now).getD r) := by
  unfold Record.setStatus?
  split
  · rename_i h
    exact ⟨Status.moves_of_canBecome h, rfl⟩
  · exact .refl r

/-- A record that stays is followed by itself or by what an operation about
its worker makes of it. -/
theorem Step.follows {op : Operation} {out : Except Error Unit} (h : Step c op (out, c'))
    (huntracked : op.Untracked c) {uid : WorkerId} {r r' : Record}
    (hr : c.find? uid = some r) (hr' : c'.find? uid = some r') : Follows r r' := by
  by_cases htarget : op.target? = some uid
  · cases h with
    | @inserted new _ =>
      cases htarget
      rw [show c.find? new.uid = none from huntracked] at hr
      cases hr
    | reported hfind hstatus =>
      cases htarget
      rw [find?_put, if_pos rfl] at hr'
      rw [hfind] at hr
      cases hr
      cases hr'
      exact ⟨Status.moves_of_canBecome hstatus, rfl⟩
    | marked =>
      cases htarget
      rw [find?_markTerminated, if_pos rfl, hr] at hr'
      cases hr'
      exact follows_setStatus? r _ _
    | removed =>
      cases htarget
      rw [find?_remove, if_pos rfl] at hr'
      cases hr'
    | cleared => cases htarget
    | full _ _ | late _ _ | unknown _ | illegal _ _ =>
      rw [hr] at hr'
      cases hr'
      exact .refl r
  · cases hother : op.target? with
    | none =>
      cases op <;> cases hother
      cases h
      cases hr'
    | some target =>
      have hne : uid ≠ target := fun huid => htarget (huid ▸ hother)
      rw [h.find?_of_ne hother hne, hr] at hr'
      cases hr'
      exact .refl r

/-! ## Runs -/

/-- The collections that a list of operations goes through, the first one
included. -/
def states (c : Collection) : List Operation → List Collection
  | [] => [c]
  | op :: ops => c :: (c.perform op).2.states ops

/-- Whether all inserted workers are new to the collection. -/
def InsertsUntracked (c : Collection) : List Operation → Prop
  | [] => True
  | op :: ops => op.Untracked c ∧ (c.perform op).2.InsertsUntracked ops

theorem sound_of_mem_states (h : c.Sound) {ops : List Operation} (hmem : c' ∈ c.states ops) :
    c'.Sound ∧ c'.max = c.max := by
  induction ops generalizing c with
  | nil =>
    rw [states, List.mem_singleton] at hmem
    subst hmem
    exact ⟨h, rfl⟩
  | cons op ops ih =>
    rcases List.mem_cons.mp hmem with rfl | hmem
    · exact ⟨h, rfl⟩
    · have hstep := step_perform c op
      obtain ⟨hsound, hmax⟩ := ih (hstep.sound h) hmem
      exact ⟨hsound, hmax.trans hstep.max_eq⟩

theorem isChain_states {ops : List Operation} (h : c.InsertsUntracked ops) :
    (c.states ops).IsChain fun c c' =>
      ∀ uid r r', c.find? uid = some r → c'.find? uid = some r' → Follows r r' := by
  induction ops generalizing c with
  | nil => exact List.isChain_singleton c
  | cons op ops ih =>
    obtain ⟨huntracked, hrest⟩ := h
    have hnext : ∀ uid r r', c.find? uid = some r → (c.perform op).2.find? uid = some r' →
        Follows r r' := fun uid r r' => (step_perform c op).follows huntracked
    cases ops with
    | nil => exact List.isChain_cons_cons.mpr ⟨hnext, ih hrest⟩
    | cons op' ops => exact List.isChain_cons_cons.mpr ⟨hnext, ih hrest⟩

/-- The records of a worker from one point of a run to another, as long as it
stays tracked, follow each other. -/
theorem isChain_records {ops : List Operation} (h : c.InsertsUntracked ops) {uid : WorkerId}
    {records : List Record}
    (hrecords : records.map some <:+: (c.states ops).map (·.find? uid)) :
    records.IsChain Follows := by
  have hchain : ((c.states ops).map (·.find? uid)).IsChain fun o o' =>
      ∀ r r', o = some r → o' = some r' → Follows r r' := by
    rw [List.isChain_map]
    exact (isChain_states h).imp fun c c' hfollows => hfollows uid
  have hinfix := hchain.infix hrecords
  rw [List.isChain_map] at hinfix
  exact hinfix.imp fun r r' hfollows => hfollows r r' rfl rfl

/-- In any run that inserts only workers that are not tracked, the collection
is never larger than its bound and keeps records under their own ids.  From
its insertion to its removal a worker's status goes along the status machine,
or stays, and its time of creation stays.  An operation about one worker leaves
the others, and a refused operation leaves all. -/
theorem lifetimes_follow_machine (c : Collection) (ops : List Operation) (hsound : c.Sound)
    (hops : c.InsertsUntracked ops) :
    (∀ c' ∈ c.states ops, c'.max = c.max ∧ c'.size ≤ c.max ∧
      ∀ uid r, c'.find? uid = some r → r.uid = uid) ∧
    (∀ uid (records : List Record),
      records.map some <:+: (c.states ops).map (·.find? uid) →
        (records.map (·.status)).IsChain (fun s t => s = t ∨ s.Moves t) ∧
        (records.map (·.createdAt)).Pairwise (· = ·)) ∧
    ∀ c' ∈ c.states ops, ∀ op,
      (∀ target uid, op.target? = some target → uid ≠ target →
        (c'.perform op).2.find? uid = c'.find? uid) ∧
      (∀ e, (c'.perform op).1 = .error e → (c'.perform op).2 = c') := by
  refine ⟨fun c' hmem => ?_, fun uid records hrecords => ?_, fun c' _ op => ⟨?_, ?_⟩⟩
  · obtain ⟨hsound', hmax⟩ := sound_of_mem_states hsound hmem
    exact ⟨hmax, hmax ▸ hsound'.bounded, fun _ _ hfind => hsound'.keyed hfind⟩
  · have hchain := isChain_records hops hrecords
    rw [List.isChain_map, ← List.isChain_iff_pairwise, List.isChain_map]
    exact ⟨hchain.imp fun _ _ h => h.status, hchain.imp fun _ _ h => h.createdAt⟩
  · intro target uid htarget hne
    exact (step_perform c' op).find?_of_ne htarget hne
  · intro e herror
    have hstep := step_perform c' op
    rw [show c'.perform op = (.error e, (c'.perform op).2) from Prod.ext herror rfl] at hstep
    exact hstep.eq_of_error

/-- A worker is reported, then marked terminated, then reported once more, and
its place is taken by another. -/
theorem lifetimes_follow_machine_late_report :
    let worker : Record := { uid := ⟨1⟩, createdAt := 3 }
    let ops : List Operation :=
      [.insert worker, .update { worker with status := .waiting, createdAt := 9 },
        .markTerminated ⟨1⟩ 5, .update { worker with status := .running }, .remove ⟨1⟩,
        .insert { worker with uid := ⟨2⟩ }]
    (empty 1).Sound ∧ (empty 1).InsertsUntracked ops ∧
      [Status.new, .waiting, .terminated, .terminated].IsChain (fun s t => s = t ∨ s.Moves t) ∧
      [3, 3, 3, 3].Pairwise (· = · : Millis → Millis → Prop) := by
  intro worker ops
  have hsound := sound_empty 1
  have hops : (empty 1).InsertsUntracked ops :=
    ⟨rfl, trivial, trivial, trivial, trivial, rfl, trivial⟩
  obtain ⟨_, hlife, _⟩ := lifetimes_follow_machine (empty 1) ops hsound hops
  refine ⟨hsound, hops, hlife ⟨1⟩ [worker, { worker with status := .waiting },
    { worker with status := .terminated, changedAt := 5 },
    { worker with status := .terminated, changedAt := 5 }] ⟨[none], [none, none], ?_⟩⟩
  rfl

/-- A worker that waits may exit: its status does not only go in order. -/
theorem waiting_may_exit :
    let worker : Record := { uid := ⟨1⟩ }
    let ops : List Operation :=
      [.insert worker, .update { worker with status := .waiting },
        .update { worker with status := .exiting }]
    let records := [worker, { worker with status := .waiting }, { worker with status := .exiting }]
    (empty 1).InsertsUntracked ops ∧
      records.map some <:+: ((empty 1).states ops).map (·.find? ⟨1⟩) ∧
      ¬ (records.map (·.status)).IsChain (fun s t => s = t ∨ s.InOrder t) := by
  intro worker ops records
  refine ⟨⟨rfl, trivial, trivial, trivial⟩, ⟨[none], [], rfl⟩, fun hchain => ?_⟩
  have hlast := (List.isChain_cons_cons.mp (List.isChain_cons_cons.mp hchain).2).1
  rcases hlast with heq | hmove
  · cases heq
  · cases hmove

end Supervisor.Pool.Collection
