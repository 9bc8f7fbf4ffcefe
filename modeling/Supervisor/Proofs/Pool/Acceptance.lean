import Supervisor.Proofs.Pool.Lifetimes

/-!
# Which reports a collection accepts

A collection is told many things about many workers.  Here one worker is followed
through any run of operations that neither takes it in again nor forgets it: if its
reports lead along the status machine, then all of them are accepted, whatever the
run does to other workers and whenever it marks this one terminated.

* `Status.Path` are reports that lead along the status machine.
* `outcomes` and `performAll` are what a run returns and leaves.
* `Brings` says where a run brings a worker; `brings_of_path` is the result.
-/

namespace Supervisor.Status

variable {s t u : Status} {path path' : List Status}

/-- From `s` through the statuses `path`, each of which the one before may become,
to `t`. -/
def Path : Status → List Status → Status → Prop
  | s, [], t => s = t
  | s, next :: path, t => s.canBecome next = true ∧ Path next path t

theorem Path.append (h : Path s path t) (h' : Path t path' u) : Path s (path ++ path') u := by
  induction path generalizing s with
  | nil =>
    obtain rfl : s = t := h
    exact h'
  | cons next path ih => exact ⟨h.1, ih h.2⟩

theorem Path.left (h : Path s (path ++ path') u) : ∃ t, Path s path t := by
  induction path generalizing s with
  | nil => exact ⟨s, rfl⟩
  | cons next path ih => exact (ih h.2).imp fun _ hpath => ⟨h.1, hpath⟩

theorem Path.unique (h : Path s path t) (h' : Path s path u) : t = u := by
  induction path generalizing s with
  | nil => exact h.symm.trans h'
  | cons next path ih => exact ih h.2 h'.2

end Supervisor.Status

namespace Supervisor.Pool.Collection

open Supervisor.Worker (Record)

/-! ## Operations about one worker -/

/-- The report of worker `uid` that an operation takes over. -/
def Operation.reportOf? (uid : WorkerId) : Operation → Option Record
  | .update report => if report.uid = uid then some report else none
  | _ => none

/-- Whether an operation marks worker `uid`. -/
def Operation.marks (uid : WorkerId) : Operation → Bool
  | .markTerminated uid' _ => decide (uid' = uid)
  | _ => false

/-- Whether an operation neither takes worker `uid` in nor forgets it. -/
def Operation.Keeps (uid : WorkerId) : Operation → Prop
  | .insert r => r.uid ≠ uid
  | .remove uid' => uid' ≠ uid
  | .clear => False
  | .update _ | .markTerminated _ _ => True

/-- The reports of worker `uid` in a run. -/
def reportsOf (uid : WorkerId) (ops : List Operation) : List Record :=
  ops.filterMap (Operation.reportOf? uid)

/-- Whether a run marks worker `uid`. -/
def marked (uid : WorkerId) (ops : List Operation) : Bool :=
  ops.any (Operation.marks uid)

variable {c : Collection} {uid : WorkerId} {r : Record} {op : Operation} {ops : List Operation}

/-- What is not about the worker is about another. -/
theorem Operation.Keeps.cases (h : op.Keeps uid) :
    (∃ report, op = .update report ∧ report.uid = uid) ∨ (∃ now, op = .markTerminated uid now) ∨
      ((∃ target, op.target? = some target ∧ uid ≠ target) ∧ op.reportOf? uid = none ∧
        op.marks uid = false) := by
  cases op with
  | insert r => exact Or.inr (Or.inr ⟨⟨r.uid, rfl, Ne.symm h⟩, rfl, rfl⟩)
  | update report =>
    by_cases huid : report.uid = uid
    · exact Or.inl ⟨report, rfl, huid⟩
    · exact Or.inr (Or.inr ⟨⟨report.uid, rfl, Ne.symm huid⟩, if_neg huid, rfl⟩)
  | markTerminated uid' now =>
    by_cases huid : uid' = uid
    · exact Or.inr (Or.inl ⟨now, huid ▸ rfl⟩)
    · exact Or.inr (Or.inr ⟨⟨uid', rfl, Ne.symm huid⟩, rfl, decide_eq_false huid⟩)
  | remove uid' => exact Or.inr (Or.inr ⟨⟨uid', rfl, Ne.symm h⟩, rfl, rfl⟩)
  | clear => exact h.elim

/-! ## Runs -/

/-- The operations of a run, each with what it returns. -/
def outcomes (c : Collection) : List Operation → List (Operation × Except Error Unit)
  | [] => []
  | op :: ops => (op, (c.perform op).1) :: (c.perform op).2.outcomes ops

/-- The collection after a run. -/
def performAll (c : Collection) (ops : List Operation) : Collection :=
  ops.foldl (fun c op => (c.perform op).2) c

/-- A run accepts all reports of worker `uid` and leaves it with the status `t`. -/
structure Brings (c : Collection) (uid : WorkerId) (ops : List Operation) (t : Status) :
    Prop where
  accepted : ∀ {report result}, (.update report, result) ∈ c.outcomes ops →
    report.uid = uid → result = .ok ()
  left : ∃ r, (c.performAll ops).find? uid = some r ∧ r.status = t

theorem Brings.cons {t : Status} (h : (c.perform op).2.Brings uid ops t)
    (hop : op.reportOf? uid = none ∨ (c.perform op).1 = .ok ()) : c.Brings uid (op :: ops) t where
  accepted {report result} hmem huid := by
    rcases List.mem_cons.mp hmem with heq | hmem
    · cases heq
      refine hop.resolve_left fun hnone => ?_
      cases hnone.symm.trans (if_pos huid)
    · exact h.accepted hmem huid
  left := h.left

theorem find?_mark (hfind : c.find? uid = some r) (now : Millis) :
    ∃ r', (c.perform (.markTerminated uid now)).2.find? uid = some r' ∧
      r'.status = .terminated := by
  refine ⟨(r.setStatus? .terminated now).getD r, ?_, r.status_getD_setStatus?_terminated now⟩
  show (c.markTerminated uid now).find? uid = _
  rw [find?_markTerminated, if_pos rfl, hfind]
  rfl

/-- Once a worker is marked, its reports are accepted and change nothing. -/
theorem brings_of_terminated (hops : ∀ op ∈ ops, op.Keeps uid) (hfind : c.find? uid = some r)
    (hstatus : r.status = .terminated) : c.Brings uid ops .terminated := by
  induction ops generalizing c r with
  | nil => exact ⟨fun hmem => (nomatch hmem), r, hfind, hstatus⟩
  | cons op ops ih =>
    obtain ⟨hop, hrest⟩ := List.forall_mem_cons.mp hops
    rcases hop.cases with ⟨report, rfl, huid⟩ | ⟨now, rfl⟩ | ⟨⟨target, htarget, hne⟩, hreport, _⟩
    · have hupdate : c.perform (.update report) = (.ok (), c) :=
        congrArg c.orKept (update_of_terminated (huid.symm ▸ hfind) hstatus)
      refine Brings.cons ?_ (Or.inr (congrArg Prod.fst hupdate))
      rw [hupdate]
      exact ih hrest hfind hstatus
    · obtain ⟨r', hfind', hstatus'⟩ := find?_mark hfind now
      exact (ih hrest hfind' hstatus').cons (Or.inl rfl)
    · have hsame := (step_perform c op).find?_of_ne htarget hne
      exact (ih hrest (hsame.trans hfind) hstatus).cons (Or.inl hreport)

/-- Reports along a path of the status machine are all accepted, and the worker is
where they lead unless it is marked. -/
theorem brings_of_path {t : Status} (hops : ∀ op ∈ ops, op.Keeps uid)
    (hfind : c.find? uid = some r)
    (hpath : r.status.Path ((reportsOf uid ops).map (·.status)) t) :
    c.Brings uid ops (if marked uid ops then .terminated else t) := by
  induction ops generalizing c r with
  | nil => exact ⟨fun hmem => (nomatch hmem), r, hfind, hpath⟩
  | cons op ops ih =>
    obtain ⟨hop, hrest⟩ := List.forall_mem_cons.mp hops
    rcases hop.cases with ⟨report, rfl, huid⟩ | ⟨now, rfl⟩ |
      ⟨⟨target, htarget, hne⟩, hreport, hmarks⟩
    · have hreports : reportsOf uid (.update report :: ops) = report :: reportsOf uid ops :=
        List.filterMap_cons_some (if_pos huid)
      rw [hreports] at hpath
      let recorded : Record := { report with createdAt := r.createdAt }
      have hupdate : c.perform (.update report) = (.ok (), c.put recorded) :=
        congrArg c.orKept (update_of_canBecome (huid.symm ▸ hfind) hpath.1)
      have hrecorded : (c.put recorded).find? uid = some recorded := by
        rw [find?_put, if_pos huid.symm]
      refine Brings.cons ?_ (Or.inr (congrArg Prod.fst hupdate))
      rw [hupdate]
      exact ih hrest hrecorded hpath.2
    · obtain ⟨r', hfind', hstatus'⟩ := find?_mark hfind now
      have hmarked : marked uid (.markTerminated uid now :: ops) = true := by
        rw [marked, List.any_cons, Operation.marks, decide_eq_true rfl, Bool.true_or]
      rw [if_pos hmarked]
      exact (brings_of_terminated hrest hfind' hstatus').cons (Or.inl rfl)
    · have hsame := (step_perform c op).find?_of_ne htarget hne
      have hreports : reportsOf uid (op :: ops) = reportsOf uid ops :=
        List.filterMap_cons_none hreport
      have hmarked : marked uid (op :: ops) = marked uid ops := by
        rw [marked, List.any_cons, hmarks, Bool.false_or, marked]
      rw [hreports] at hpath
      rw [hmarked]
      exact (ih hrest (hsame.trans hfind) hpath).cons (Or.inl hreport)

end Supervisor.Pool.Collection
