import Supervisor.Pool.Collection
import Supervisor.Proofs.Table

/-!
# What the operations of a collection keep

A collection is bounded, and every record stands under its worker's own id.
`Sound` is these two facts; this module shows that every operation keeps them
and says what it does to the number of workers and to the idle ones.

The results of `insert` and `update` are opened once, in `insert_eq_ok` and
`update_eq_ok`.  Nothing else looks into the two.
-/

namespace Supervisor.Worker.Record

/-- A record marked terminated is terminated, also if it was before. -/
theorem status_getD_setStatus?_terminated (r : Record) (now : Millis) :
    ((r.setStatus? .terminated now).getD r).status = .terminated := by
  unfold setStatus?
  split
  · rfl
  · rename_i h
    exact Decidable.byContradiction fun hne => h (Status.canBecome_terminated_right hne)

theorem uid_getD_setStatus? (r : Record) (next : Status) (now : Millis) :
    ((r.setStatus? next now).getD r).uid = r.uid := by
  unfold setStatus?
  split <;> rfl

end Supervisor.Worker.Record

namespace Supervisor.Pool.Collection

open Supervisor.Worker (Record)

variable {c c' : Collection} {r : Record}

/-- A collection as its operations leave it. -/
structure Sound (c : Collection) : Prop where
  /-- Records stand under their own id. -/
  keyed : ∀ {uid r}, c.find? uid = some r → r.uid = uid
  /-- There are no more workers than the collection may hold. -/
  bounded : c.size ≤ c.max

theorem sound_empty (max : Nat) : (empty max).Sound where
  keyed h := by cases h
  bounded := Nat.zero_le _

/-! ## Inserting -/

/-- The collection with the record of a worker put in or replaced. -/
def put (c : Collection) (r : Record) : Collection :=
  { c with workers := c.workers.insert r.uid r }

theorem insert_eq_ok (h : c.insert r = .ok c') :
    c' = c.put r ∧ (c.find? r.uid ≠ none ∨ c.size < c.max) := by
  unfold insert at h
  split at h
  · rename_i hroom
    refine ⟨(Except.ok.inj h).symm, hroom.imp_left fun htracked => ?_⟩
    exact Option.isSome_iff_ne_none.mp htracked
  · cases h

/-- A worker that is not tracked is taken as long as there is room. -/
theorem insert_of_room (hroom : c.size < c.max) : c.insert r = .ok (c.put r) :=
  if_pos (Or.inr hroom)

theorem find?_put (c : Collection) (r : Record) (uid : WorkerId) :
    (c.put r).find? uid = if uid = r.uid then some r else c.find? uid :=
  Table.find?_insert _ _ _ _

theorem size_put_of_untracked (h : c.find? r.uid = none) : (c.put r).size = c.size + 1 :=
  Table.size_insert_of_find?_eq_none r h

theorem size_put_of_tracked {r' : Record} (h : c.find? r.uid = some r') :
    (c.put r).size = c.size :=
  Table.size_insert_of_find?_eq_some r h

theorem keyed_put (h : c.Sound) {uid : WorkerId} {r' : Record}
    (hfind : (c.put r).find? uid = some r') : r'.uid = uid := by
  rw [find?_put] at hfind
  split at hfind
  · rename_i huid
    cases hfind
    exact huid.symm
  · exact h.keyed hfind

theorem Sound.put_of_room (h : c.Sound) (hroom : c.size < c.max) : (c.put r).Sound where
  keyed := keyed_put h
  bounded := by
    cases hfind : c.find? r.uid with
    | none =>
      rw [size_put_of_untracked hfind]
      exact hroom
    | some r' =>
      rw [size_put_of_tracked hfind]
      exact h.bounded

theorem Sound.put_of_tracked (h : c.Sound) {r' : Record} (hfind : c.find? r.uid = some r') :
    (c.put r).Sound where
  keyed := keyed_put h
  bounded := by
    rw [size_put_of_tracked hfind]
    exact h.bounded

theorem Sound.put (h : c.Sound) (hroom : c.find? r.uid ≠ none ∨ c.size < c.max) :
    (c.put r).Sound := by
  rcases hroom with htracked | hroom
  · obtain ⟨r', hfind⟩ := Option.ne_none_iff_exists'.mp htracked
    exact h.put_of_tracked hfind
  · exact h.put_of_room hroom

theorem Sound.insert (h : c.Sound) (hinsert : c.insert r = .ok c') : c'.Sound := by
  obtain ⟨rfl, hroom⟩ := insert_eq_ok hinsert
  exact h.put hroom

/-! ## Reports, marks and removals -/

/-- An accepted report changes nothing or replaces the record of its worker. -/
theorem update_eq_ok {report : Record} (h : c.update report = .ok c') :
    c' = c ∨ ∃ r, c.find? report.uid = some r ∧ r.status.canBecome report.status = true ∧
      c' = c.put { report with createdAt := r.createdAt } := by
  unfold update at h
  split at h
  · cases h
  · rename_i r hfind
    split at h
    · exact Or.inl (Except.ok.inj h).symm
    · split at h
      · rename_i hstatus
        exact Or.inr ⟨r, hfind, hstatus, (Except.ok.inj h).symm⟩
      · cases h

theorem update_of_terminated {report : Record} (hfind : c.find? report.uid = some r)
    (h : r.status = .terminated) : c.update report = .ok c := by
  unfold update
  rw [hfind]
  exact if_pos h

theorem update_of_canBecome {report : Record} (hfind : c.find? report.uid = some r)
    (h : r.status.canBecome report.status = true) :
    c.update report = .ok (c.put { report with createdAt := r.createdAt }) := by
  have halive : r.status ≠ .terminated := by
    intro hterminated
    rw [hterminated, Status.canBecome_terminated_left] at h
    cases h
  unfold update
  rw [hfind]
  dsimp only
  rw [if_neg halive, if_pos h]
  rfl

theorem Sound.update {report : Record} (h : c.Sound) (hupdate : c.update report = .ok c') :
    c'.Sound := by
  rcases update_eq_ok hupdate with rfl | ⟨r, hfind, _, rfl⟩
  · exact h
  · exact h.put_of_tracked hfind

theorem max_update {report : Record} (hupdate : c.update report = .ok c') : c'.max = c.max := by
  rcases update_eq_ok hupdate with rfl | ⟨r, _, _, rfl⟩ <;> rfl

theorem size_update {report : Record} (hupdate : c.update report = .ok c') : c'.size = c.size := by
  rcases update_eq_ok hupdate with rfl | ⟨r, hfind, _, rfl⟩
  · rfl
  · exact size_put_of_tracked hfind

theorem size_markTerminated (c : Collection) (uid : WorkerId) (now : Millis) :
    (c.markTerminated uid now).size = c.size :=
  Table.size_modify _ _ _

theorem find?_markTerminated (c : Collection) (uid uid' : WorkerId) (now : Millis) :
    (c.markTerminated uid now).find? uid' =
      if uid' = uid then (c.find? uid').map fun r => (r.setStatus? .terminated now).getD r
      else c.find? uid' :=
  Table.find?_modify _ _ _ _

/-- A report neither tracks a worker nor forgets one. -/
theorem find?_update_eq_none_iff {report : Record} (hupdate : c.update report = .ok c')
    (uid : WorkerId) : c'.find? uid = none ↔ c.find? uid = none := by
  rcases update_eq_ok hupdate with rfl | ⟨r, hfind, _, rfl⟩
  · exact Iff.rfl
  · rw [find?_put]
    split
    · rename_i huid
      rw [show uid = report.uid from huid, hfind]
      exact iff_of_false (Option.some_ne_none _) (Option.some_ne_none _)
    · exact Iff.rfl

theorem find?_markTerminated_eq_none_iff (c : Collection) (uid uid' : WorkerId) (now : Millis) :
    (c.markTerminated uid now).find? uid' = none ↔ c.find? uid' = none := by
  rw [find?_markTerminated]
  split
  · exact Option.map_eq_none_iff
  · exact Iff.rfl

theorem Sound.markTerminated (h : c.Sound) (uid : WorkerId) (now : Millis) :
    (c.markTerminated uid now).Sound where
  keyed {uid' r'} hfind := by
    rw [find?_markTerminated] at hfind
    split at hfind
    · obtain ⟨r, hr, rfl⟩ := Option.map_eq_some_iff.mp hfind
      rw [Record.uid_getD_setStatus?]
      exact h.keyed hr
    · exact h.keyed hfind
  bounded := by
    rw [size_markTerminated]
    exact h.bounded

theorem find?_remove (c : Collection) (uid uid' : WorkerId) :
    (c.remove uid).find? uid' = if uid' = uid then none else c.find? uid' :=
  Table.find?_erase _ _ _

theorem Sound.remove (h : c.Sound) (uid : WorkerId) : (c.remove uid).Sound where
  keyed {uid' r'} hfind := by
    rw [find?_remove] at hfind
    split at hfind
    · cases hfind
    · exact h.keyed hfind
  bounded := Nat.le_trans (Table.size_erase_le _ _) h.bounded

/-! ## Idle workers -/

/-- Idle workers are tracked. -/
theorem Sound.find?_of_mem_idle (h : c.Sound) (hr : r ∈ c.idle) : c.find? r.uid = some r := by
  obtain ⟨⟨uid, r'⟩, he, rfl⟩ := List.mem_map.mp (List.mem_filter.mp hr).1
  have hfind : c.find? uid = some r' := Table.find?_eq_some_iff.mpr he
  rwa [h.keyed hfind]

theorem mem_idle_of_find? {uid : WorkerId} (hfind : c.find? uid = some r)
    (hidle : r.status.isIdle = true) : r ∈ c.idle :=
  List.mem_filter.mpr ⟨List.mem_map.mpr ⟨_, Table.find?_eq_some_iff.mp hfind, rfl⟩, hidle⟩

/-- A new idle worker is one more idle worker. -/
theorem idle_put_perm (huntracked : c.find? r.uid = none) (hidle : r.status.isIdle = true) :
    (c.put r).idle.Perm (r :: c.idle) := by
  have hvalues := (Table.values_insert_perm c.workers r.uid r).filter (·.status.isIdle)
  rw [Table.erase_of_find?_eq_none huntracked, List.filter_cons, hidle, if_pos rfl] at hvalues
  exact hvalues

/-- Marking a worker terminated takes it out of the idle ones and leaves the
others. -/
theorem idle_markTerminated (h : c.Sound) (uid : WorkerId) (now : Millis) :
    (c.markTerminated uid now).idle = c.idle.filter fun r => decide (r.uid ≠ uid) := by
  have hkeyed : ∀ e ∈ c.workers.entries, e.2.uid = e.1 := fun e he =>
    h.keyed (Table.find?_eq_some_iff.mpr he)
  show ((c.workers.entries.map _).map Prod.snd).filter _ = _
  unfold idle Table.values
  generalize c.workers.entries = l at hkeyed
  induction l with
  | nil => rfl
  | cons e rest ih =>
    have hrest := ih fun f hf => hkeyed f (List.mem_cons_of_mem _ hf)
    have huid := hkeyed e List.mem_cons_self
    simp only [List.map_cons, List.filter_cons]
    rw [hrest]
    by_cases he : e.1 = uid
    · have hmarked : ((e.2.setStatus? .terminated now).getD e.2).status.isIdle = false := by
        rw [Record.status_getD_setStatus?_terminated]
        rfl
      simp only [he, if_true, hmarked]
      cases e.2.status.isIdle <;> simp [huid, he]
    · simp only [he, if_false]
      cases e.2.status.isIdle <;> simp [huid, he]

/-- The idle workers have different ids. -/
theorem Sound.nodup_idle_uids (h : c.Sound) : (c.idle.map (·.uid)).Nodup := by
  have hkeyed : ∀ e ∈ c.workers.entries, e.2.uid = e.1 := fun e he =>
    h.keyed (Table.find?_eq_some_iff.mpr he)
  have huids : c.workers.values.map (·.uid) = c.workers.keys := by
    unfold Table.values Table.keys
    rw [List.map_map]
    exact List.map_congr_left hkeyed
  have hsub : (c.idle.map (·.uid)).Sublist c.workers.keys :=
    huids ▸ List.filter_sublist.map _
  exact hsub.nodup c.workers.nodup_keys

end Supervisor.Pool.Collection
