import Mathlib.Data.List.Nodup
import Supervisor.Proofs.Pool.Band

/-!
# Who is retired first

The policy goes through the idle workers one by one and may pass over a worker.
Nevertheless those it retires are the first ones in the order of their last
change.  A worker that changed later has been idle for no longer, whatever the
clock says: a stamp that lies ahead of the clock counts as no time at all.  So
once one worker is passed over, all that follow are.

* `expired_eq_take` turns the walk over the workers into the length of a
  prefix, given that nobody in the list is overdue before somebody else.
* `decide_eq_take` adds the workers above the upper bound.
* `least_recent_retired` names the number of retired workers in terms of the
  bounds and of the overdue workers only.  The order in which they are retired
  is any that ascends by the time of the last change and then by id; it does not
  matter which one, as all have the same ids in the same places.
-/

namespace Supervisor.Pool

open Supervisor.Worker (Record)

/-! ## The order of the last change -/

/-- `r` changed its status earlier than `s`, or at the same time and has no
larger id. -/
def ChangedBefore (r s : Record) : Prop :=
  r.changedAt < s.changedAt ∨ r.changedAt = s.changedAt ∧ r.uid.val ≤ s.uid.val

instance (r s : Record) : Decidable (ChangedBefore r s) :=
  inferInstanceAs (Decidable (_ ∨ _))

/-- The idle workers in the order of their last change. -/
structure LeastRecentFirst (c : Collection) (order : List Record) : Prop where
  perm : order.Perm c.idle
  ascending : order.Pairwise ChangedBefore

theorem retiredBefore_iff {r s : Record} : retiredBefore r s = true ↔ ChangedBefore r s := by
  simp [retiredBefore, ChangedBefore]

theorem ChangedBefore.changedAt_le {r s : Record} (h : ChangedBefore r s) :
    r.changedAt.toNat ≤ s.changedAt.toNat := by
  rcases h with hlt | ⟨heq, _⟩
  · exact Nat.le_of_lt (UInt64.lt_iff_toNat_lt.mp hlt)
  · exact Nat.le_of_eq (congrArg UInt64.toNat heq)

theorem ChangedBefore.trans {r s t : Record} (h : ChangedBefore r s) (h' : ChangedBefore s t) :
    ChangedBefore r t := by
  simp only [ChangedBefore, UInt64.lt_iff_toNat_lt, UInt64.le_iff_toNat_le,
    ← UInt64.toNat_inj] at h h' ⊢
  omega

theorem changedBefore_total (r s : Record) : ChangedBefore r s ∨ ChangedBefore s r := by
  simp only [ChangedBefore, UInt64.lt_iff_toNat_lt, UInt64.le_iff_toNat_le, ← UInt64.toNat_inj]
  omega

/-- Sorting finds such an order. -/
theorem leastRecentFirst_mergeSort (c : Collection) :
    LeastRecentFirst c (c.idle.mergeSort retiredBefore) where
  perm := List.mergeSort_perm _ _
  ascending := by
    have htrans : ∀ r s t : Record, retiredBefore r s = true → retiredBefore s t = true →
        retiredBefore r t = true := by
      intro r s t hrs hst
      rw [retiredBefore_iff] at hrs hst ⊢
      exact hrs.trans hst
    have htotal : ∀ r s : Record, (retiredBefore r s || retiredBefore s r) = true := by
      intro r s
      rw [Bool.or_eq_true, retiredBefore_iff, retiredBefore_iff]
      exact changedBefore_total r s
    exact (List.pairwise_mergeSort htrans htotal c.idle).imp retiredBefore_iff.mp

/-- All such orders have the same ids in the same places. -/
theorem LeastRecentFirst.map_uid_eq {c : Collection} {order order' : List Record}
    (h : LeastRecentFirst c order) (h' : LeastRecentFirst c order') :
    order.map (·.uid) = order'.map (·.uid) := by
  -- Records may tie without being equal, but then their times and ids are.
  let stamp (r : Record) : Millis × WorkerId := (r.changedAt, r.uid)
  let before (a b : Millis × WorkerId) : Prop := a.1 < b.1 ∨ a.1 = b.1 ∧ a.2.val ≤ b.2.val
  have hanti : ∀ a b, a ∈ order.map stamp → b ∈ order'.map stamp → before a b → before b a →
      a = b := by
    rintro ⟨t, uid⟩ ⟨t', uid'⟩ _ _ hab hba
    simp only [before, UInt64.lt_iff_toNat_lt, UInt64.le_iff_toNat_le,
      ← UInt64.toNat_inj] at hab hba
    have htime : t = t' := UInt64.toNat_inj.mp (by omega)
    have huid : uid = uid' := Id.ext_val (UInt64.toNat_inj.mp (by omega))
    rw [htime, huid]
  have hstamps : order.map stamp = order'.map stamp :=
    List.Perm.eq_of_pairwise hanti (List.pairwise_map.mpr h.ascending)
      (List.pairwise_map.mpr h'.ascending) ((h.perm.trans h'.perm.symm).map stamp)
  have hsnd := congrArg (List.map Prod.snd) hstamps
  rwa [List.map_map, List.map_map] at hsnd

/-! ## Overdue workers -/

/-- How many of `idle` workers are retired, of which so many are overdue. -/
def quota (p : Policy) (idle overdue : Nat) : Nat :=
  max (idle - p.maxSpare) (min (idle - p.minSpare) overdue)

namespace Policy

variable {p : Policy} {now : Millis}

/-- Whether a worker has been in its status for longer than it may idle. -/
def isOverdue (p : Policy) (now : Millis) (r : Record) : Bool :=
  p.idleTimeout < r.timeInStatus now

/-- Whoever changed earlier is overdue if somebody is who changed later. -/
theorem isOverdue_of_changedBefore {r s : Record} (h : ChangedBefore r s)
    (hs : p.isOverdue now s = true) : p.isOverdue now r = true := by
  have hlonger : (s.timeInStatus now).nanos ≤ (r.timeInStatus now).nanos :=
    Nat.mul_le_mul_right _ (Nat.sub_le_sub_left h.changedAt_le _)
  have hlate : p.idleTimeout.nanos < (s.timeInStatus now).nanos := of_decide_eq_true hs
  exact decide_eq_true (Nat.lt_of_lt_of_le hlate hlonger)

/-- In a list in which nobody is overdue before somebody else, those behind a
place are overdue as far as there are more of them than places. -/
theorem countP_drop {q : Record → Bool} {rs : List Record}
    (h : rs.Pairwise fun r s => q s = true → q r = true) (n : Nat) :
    (rs.drop n).countP q = rs.countP q - n := by
  induction rs generalizing n with
  | nil => simp
  | cons r rs ih =>
    obtain ⟨hr, hrs⟩ := List.pairwise_cons.mp h
    cases n with
    | zero => rfl
    | succ n =>
      rw [List.drop_succ_cons, ih hrs, List.countP_cons]
      by_cases hq : q r = true
      · rw [if_pos hq]
        omega
      · have hnone : rs.countP q = 0 :=
          List.countP_eq_zero.mpr fun s hs hqs => hq (hr s hs hqs)
        rw [if_neg hq, hnone]
        omega

/-- Going through such a list, the policy picks a prefix: the overdue workers,
as many as are to spare. -/
theorem expired_eq_take {rs : List Record}
    (h : rs.Pairwise fun r s => p.isOverdue now s = true → p.isOverdue now r = true)
    (remaining : Nat) :
    p.expired now remaining rs =
      rs.take (min (remaining - p.minSpare) (rs.countP (p.isOverdue now))) := by
  induction rs generalizing remaining with
  | nil =>
    rw [List.take_nil]
    rfl
  | cons r rs ih =>
    obtain ⟨hr, hrs⟩ := List.pairwise_cons.mp h
    unfold expired
    by_cases hspare : remaining ≤ p.minSpare
    · rw [if_pos hspare, Nat.sub_eq_zero_of_le hspare, Nat.zero_min, List.take_zero]
    · rw [if_neg hspare]
      by_cases hlate : p.isOverdue now r = true
      · have hcount : min (remaining - p.minSpare) (rs.countP (p.isOverdue now) + 1) =
            min (remaining - 1 - p.minSpare) (rs.countP (p.isOverdue now)) + 1 := by
          omega
        rw [if_pos (of_decide_eq_true hlate), List.countP_cons_of_pos hlate, hcount,
          List.take_succ_cons, ih hrs]
      · have hnone : rs.countP (p.isOverdue now) = 0 :=
          List.countP_eq_zero.mpr fun s hs hs' => hlate (hr s hs hs')
        rw [if_neg fun h => hlate (decide_eq_true h), List.countP_cons_of_neg hlate, hnone,
          Nat.min_zero, List.take_zero, ih hrs, hnone, Nat.min_zero, List.take_zero]

/-! ## The decision -/

/-- With enough idle workers the policy retires the first ones in the order of
their last change. -/
theorem decide_eq_take {c : Collection} (now : Millis) (h : p.minSpare ≤ c.idle.length) :
    p.decide c now =
      { create := 0
        terminate := ((c.idle.mergeSort retiredBefore).take
          (quota p c.idle.length (c.idle.countP (p.isOverdue now)))).map (·.uid) } := by
  let order := c.idle.mergeSort retiredBefore
  let excess := c.idle.length - p.maxSpare
  have horder := leastRecentFirst_mergeSort c
  have hoverdue : order.Pairwise fun r s =>
      p.isOverdue now s = true → p.isOverdue now r = true :=
    horder.ascending.imp isOverdue_of_changedBefore
  have hcount : (order.drop excess).countP (p.isOverdue now) =
      c.idle.countP (p.isOverdue now) - excess := by
    rw [countP_drop hoverdue, horder.perm.countP_eq]
  have hlate : p.expired now (c.idle.length - excess) (order.drop excess) =
      (order.drop excess).take (min (c.idle.length - excess - p.minSpare)
        (c.idle.countP (p.isOverdue now) - excess)) := by
    rw [expired_eq_take (hoverdue.sublist (List.drop_sublist _ _)), hcount]
  have hquota : excess + min (c.idle.length - excess - p.minSpare)
      (c.idle.countP (p.isOverdue now) - excess) =
      quota p c.idle.length (c.idle.countP (p.isOverdue now)) := by
    simp only [quota, excess]
    omega
  unfold decide
  rw [if_neg (Nat.not_lt.mpr h)]
  show Decision.mk 0 ((order.take excess ++
    p.expired now (c.idle.length - excess) (order.drop excess)).map (·.uid)) = _
  rw [hlate, ← List.take_add, hquota]

end Policy

/-- What the policy wants, for any bounds, any workers and any clock.  With too
few idle workers it creates the missing ones as far as there is room, and
retires nobody.  With enough it creates nobody and retires the first ones in
the order of their last change: those above the upper bound, or those that are
overdue if they are more, but none that the lower bound asks for.  So nobody is
kept who changed earlier than somebody who is retired. -/
theorem least_recent_retired (p : Policy) (c : Collection) (now : Millis) :
    let idle := c.idle.length
    let overdue := c.idle.countP fun r => p.idleTimeout < r.timeInStatus now
    let k := max (idle - p.maxSpare) (min (idle - p.minSpare) overdue)
    let decision := p.decide c now
    (idle < p.minSpare →
      decision = { create := min (p.minSpare - idle) (p.max - c.size), terminate := [] }) ∧
    (∃ order, LeastRecentFirst c order) ∧
    (p.minSpare ≤ idle → ∀ order, LeastRecentFirst c order →
      decision = { create := 0, terminate := (order.take k).map (·.uid) }) ∧
    (c.Sound → ∀ kept ∈ c.idle, ∀ retired ∈ c.idle, kept.uid ∉ decision.terminate →
      retired.uid ∈ decision.terminate → retired.changedAt ≤ kept.changedAt) := by
  intro idle overdue k decision
  have horder := leastRecentFirst_mergeSort c
  refine ⟨Policy.decide_of_few now, ⟨_, horder⟩, ?_, ?_⟩
  · intro henough order horder'
    show p.decide c now = _
    rw [Policy.decide_eq_take now henough, List.map_take, List.map_take,
      horder.map_uid_eq horder']
    rfl
  · intro hc kept hkept retired hretired hleft hgone
    rcases Nat.lt_or_ge idle p.minSpare with hfew | henough
    · have hnobody : decision.terminate = [] :=
        congrArg Decision.terminate (Policy.decide_of_few now hfew)
      rw [hnobody] at hgone
      exact absurd hgone List.not_mem_nil
    · let order := c.idle.mergeSort retiredBefore
      have hterminate : decision.terminate = (order.take k).map (·.uid) :=
        congrArg Decision.terminate (Policy.decide_eq_take now henough)
      have hsame : ∀ {r s : Record}, r ∈ c.idle → s ∈ c.idle → r.uid = s.uid → r = s :=
        fun hr hs => List.inj_on_of_nodup_map hc.nodup_idle_uids hr hs
      rw [hterminate] at hleft hgone
      obtain ⟨r, hr, huid⟩ := List.mem_map.mp hgone
      have hretired' : retired ∈ order.take k := by
        have hidle := horder.perm.mem_iff.mp (List.mem_of_mem_take hr)
        rwa [hsame hretired hidle huid.symm]
      have hkept' : kept ∈ order.drop k := by
        have hboth : kept ∈ order.take k ++ order.drop k := by
          rw [List.take_append_drop]
          exact horder.perm.mem_iff.mpr hkept
        exact (List.mem_append.mp hboth).resolve_left fun h => hleft (List.mem_map_of_mem h)
      have hsplit : (order.take k ++ order.drop k).Pairwise ChangedBefore := by
        rw [List.take_append_drop]
        exact horder.ascending
      have hbefore := (List.pairwise_append.mp hsplit).2.2 retired hretired' kept hkept'
      exact UInt64.le_iff_toNat_le.mpr hbefore.changedAt_le

/-- Workers 1 and 2 changed at the same time and are overdue, worker 3 changed
in the future, and worker 4 just now.  The upper bound asks for one retirement,
the timeout for a second one.  A lower bound of five asks for another worker
instead, since the busy worker 5 does not count. -/
theorem least_recent_retired_tie :
    let first : Record := { uid := ⟨1⟩, changedAt := 100 }
    let second : Record := { uid := ⟨2⟩, status := .waiting, changedAt := 100 }
    let early : Record := { uid := ⟨3⟩, changedAt := 5000 }
    let late : Record := { uid := ⟨4⟩, status := .waiting, changedAt := 3990 }
    let busy : Record := { uid := ⟨5⟩, status := .running, changedAt := 10 }
    let c : Collection :=
      ((((Collection.empty 8).put busy).put late).put early).put second |>.put first
    let p : Policy := { minSpare := 1, maxSpare := 3, max := 8, idleTimeout := .ofSeconds 2 }
    let more : Policy := { p with minSpare := 5, maxSpare := 6 }
    p.minSpare ≤ c.idle.length ∧ LeastRecentFirst c [first, second, late, early] ∧
      p.decide c 4000 = { create := 0, terminate := [⟨1⟩, ⟨2⟩] } ∧
      second.changedAt ≤ late.changedAt ∧
      c.idle.length < more.minSpare ∧ more.decide c 4000 = { create := 1, terminate := [] } := by
  intro first second early late busy c p more
  have henough : p.minSpare ≤ c.idle.length := by decide
  have hfew : c.idle.length < more.minSpare := by decide
  have horder : LeastRecentFirst c [first, second, late, early] := ⟨by decide, by decide⟩
  have hc : c.Sound := by
    have hroom : ∀ {c : Collection} (r : Record), c.Sound → c.size < c.max → (c.put r).Sound :=
      fun _ h hfree => h.put_of_room hfree
    exact hroom _ (hroom _ (hroom _ (hroom _ (hroom _ (Collection.sound_empty 8) (by decide))
      (by decide)) (by decide)) (by decide)) (by decide)
  obtain ⟨_, _, hretire, hprior⟩ := least_recent_retired p c 4000
  have hdecide : p.decide c 4000 = { create := 0, terminate := [⟨1⟩, ⟨2⟩] } :=
    (hretire henough _ horder).trans (by decide)
  rw [hdecide] at hprior
  refine ⟨henough, horder, hdecide, ?_, hfew, ?_⟩
  · exact hprior hc late (by decide) second (by decide) (by decide) (by decide)
  · exact ((least_recent_retired more c 4000).1 hfew).trans (by decide)

end Supervisor.Pool
