import Supervisor.Proofs.Pool.Retirement

/-!
# After a pass there is nothing left to do

A policy that is asked twice in a row should not take back what it has just
ordered.  `decide_eq_nothing_iff` says which pools a policy leaves alone, in
terms of how many workers there are, how many of them idle and how many of
these are overdue.  Then it is enough to count what a pass leaves.

* Creating.  `Newcomers.counts_adopt` counts also when there is not enough
  room; then the newcomers that do not fit are refused, and only these.
* Retiring.  `idle_retire_take` says who is left if the first ones in some order
  are retired.  In the order of their last change nobody who is overdue is left
  behind as long as there are workers to spare.
* `nothing_left_to_do` puts the two together.
-/

namespace Supervisor.Pool

open Supervisor.Worker (Record)

namespace Policy

variable {p : Policy} {c : Collection} {now now' : Millis}

/-! ## Pools that are left alone -/

/-- A policy does nothing if no worker is missing, or there is no room for one,
and if none is to spare: there are not too many idle workers, and those that the
lower bound does not ask for are not overdue. -/
theorem decide_eq_nothing_iff (hspare : p.minSpare ≤ p.maxSpare) :
    p.decide c now = { create := 0, terminate := [] } ↔
      (p.minSpare ≤ c.idle.length ∨ p.max ≤ c.size) ∧ c.idle.length ≤ p.maxSpare ∧
        (c.idle.length ≤ p.minSpare ∨ c.idle.countP (p.isOverdue now) = 0) := by
  rcases Nat.lt_or_ge c.idle.length p.minSpare with hfew | henough
  · rw [decide_of_few now hfew]
    simp only [Decision.mk.injEq, and_true]
    omega
  · have hoverdue := List.countP_le_length (p := p.isOverdue now) (l := c.idle)
    have hlength : (((c.idle.mergeSort retiredBefore).take
        (quota p c.idle.length (c.idle.countP (p.isOverdue now)))).map (·.uid)).length =
          quota p c.idle.length (c.idle.countP (p.isOverdue now)) := by
      rw [List.length_map, List.length_take, List.length_mergeSort, quota]
      omega
    rw [decide_eq_take now henough]
    simp only [Decision.mk.injEq, true_and]
    rw [← List.length_eq_zero_iff, hlength, quota]
    omega

/-- Whoever is overdue stays so. -/
theorem isOverdue_of_le {r : Record} (h : now' ≤ now) (hr : p.isOverdue now' r = true) :
    p.isOverdue now r = true := by
  have hlonger : (r.timeInStatus now').nanos ≤ (r.timeInStatus now).nanos :=
    Nat.mul_le_mul_right _ (Nat.sub_le_sub_right (UInt64.le_iff_toNat_le.mp h) _)
  have hlate : p.idleTimeout.nanos < (r.timeInStatus now').nanos := of_decide_eq_true hr
  exact decide_eq_true (Nat.lt_of_lt_of_le hlate hlonger)

theorem countP_isOverdue_le (h : now' ≤ now) (rs : List Record) :
    rs.countP (p.isOverdue now') ≤ rs.countP (p.isOverdue now) :=
  List.countP_mono_left fun _ _ => isOverdue_of_le h

end Policy

/-! ## Creating -/

theorem Collection.insert_of_full {c : Collection} {r : Record} (h : c.find? r.uid = none)
    (hfull : c.max ≤ c.size) : c.insert r = .error (.poolFull c.max) := by
  refine if_neg (not_or.mpr ⟨?_, Nat.not_lt.mpr hfull⟩)
  exact Option.not_isSome_iff_eq_none.mpr h

/-- Newcomers are taken as long as there is room, and all that are taken are
idle. -/
theorem Newcomers.counts_adopt {created : List Record} : ∀ {c : Collection},
    Newcomers c created → c.Sound →
      (c.adopt created).1.size = min c.max (c.size + created.length) ∧
        (c.adopt created).1.idle.length + c.size = c.idle.length + (c.adopt created).1.size ∧
        ((∀ outcome ∈ (c.adopt created).2, outcome = .ok ()) ↔
          c.size + created.length ≤ c.max) := by
  induction created with
  | nil =>
    intro c _ hc
    have hbounded := hc.bounded
    refine ⟨?_, rfl, iff_of_true (fun _ h => (nomatch h)) hbounded⟩
    show c.size = min c.max (c.size + 0)
    omega
  | cons r created ih =>
    intro c h hc
    have huntracked := h.untracked r List.mem_cons_self
    rw [List.length_cons]
    by_cases hfree : c.size < c.max
    · have hidle : r.status.isIdle = true := by
        rw [h.new r List.mem_cons_self]
        rfl
      have hsize : (c.put r).size = c.size + 1 := Collection.size_put_of_untracked huntracked
      have hcount : (c.put r).idle.length = c.idle.length + 1 :=
        (Collection.idle_put_perm huntracked hidle).length_eq
      have hmax : (c.put r).max = c.max := rfl
      obtain ⟨hsize', hcount', hout⟩ := ih h.tail (hc.put_of_room hfree)
      simp only [Collection.adopt, Collection.insert_of_room hfree, List.forall_mem_cons,
        true_and, hout]
      omega
    · have hfull : c.max ≤ c.size := Nat.le_of_not_lt hfree
      have hbounded := hc.bounded
      obtain ⟨hsize', hcount', -⟩ := ih (h.sublist (List.sublist_cons_self r created)) hc
      simp only [Collection.adopt, Collection.insert_of_full huntracked hfull,
        List.forall_mem_cons, reduceCtorEq, false_and, false_iff]
      omega

/-! ## Retiring -/

/-- If the first idle workers in some order are retired, the others are left. -/
theorem Collection.idle_retire_take {c : Collection} (hc : c.Sound) {order : List Record}
    (horder : order.Perm c.idle) (k : Nat) (clock : WorkerId → Millis) :
    (c.retire ((order.take k).map (·.uid)) clock).idle.Perm (order.drop k) := by
  let gone := (order.take k).map (·.uid)
  let left := (order.drop k).map (·.uid)
  have hdistinct : (gone ++ left).Nodup := by
    show ((order.take k).map (·.uid) ++ (order.drop k).map (·.uid)).Nodup
    rw [← List.map_append, List.take_append_drop]
    exact (horder.map _).nodup_iff.mpr hc.nodup_idle_uids
  have htake : (order.take k).filter (fun r => decide (r.uid ∉ gone)) = [] := by
    rw [List.filter_eq_nil_iff]
    intro r hr hleft
    exact of_decide_eq_true hleft (List.mem_map_of_mem hr)
  have hdrop : (order.drop k).filter (fun r => decide (r.uid ∉ gone)) = order.drop k := by
    rw [List.filter_eq_self]
    intro r hr
    refine decide_eq_true fun hgone => ?_
    exact (List.disjoint_of_nodup_append hdistinct) hgone (List.mem_map_of_mem hr)
  have hsplit : order.filter (fun r => decide (r.uid ∉ gone)) = order.drop k := by
    calc order.filter (fun r => decide (r.uid ∉ gone))
        = (order.take k ++ order.drop k).filter (fun r => decide (r.uid ∉ gone)) := by
          rw [List.take_append_drop]
      _ = order.drop k := by rw [List.filter_append, htake, hdrop, List.nil_append]
  rw [idle_retire gone clock hc, ← hsplit]
  exact horder.symm.filter _

/-! ## A pass -/

namespace Pass.Fits

variable {a : Pass} {p : Policy} {c : Collection}

/-- With too few idle workers a pass creates those that are missing.  The policy
asks again exactly for those that were refused. -/
theorem nothing_left_of_few (h : a.Fits p c) (hc : c.Sound) (hspare : p.minSpare ≤ p.maxSpare)
    (hfew : c.idle.length < p.minSpare) (now : Millis) :
    p.decide (a.run p c).1 now = { create := 0, terminate := [] } ↔
      ∀ outcome ∈ (a.run p c).2, outcome = .ok () := by
  have hdecide := Policy.decide_of_few a.now hfew
  have hasked : a.created.length = min (p.minSpare - c.idle.length) (p.max - c.size) := by
    rw [h.asked, hdecide]
  have hbounded := hc.bounded
  obtain ⟨hsize, hcount, hout⟩ := h.fresh.counts_adopt hc
  have hrun : (a.run p c).1 = (c.adopt a.created).1 := by
    show (c.adopt a.created).1.retire (p.decide c a.now).terminate a.marked = _
    rw [hdecide]
    rfl
  have hout' : (∀ outcome ∈ (a.run p c).2, outcome = .ok ()) ↔
      c.size + a.created.length ≤ c.max := hout
  rw [Policy.decide_eq_nothing_iff hspare, hout', hrun]
  omega

/-- With enough idle workers a pass retires those that are to spare.  The ones it
leaves are not too many, and if they are more than the lower bound asks for, then
none of them was overdue. -/
theorem nothing_left_of_enough (h : a.Fits p c) (hc : c.Sound)
    (hspare : p.minSpare ≤ p.maxSpare) (henough : p.minSpare ≤ c.idle.length) {now : Millis}
    (hnow : now ≤ a.now) :
    a.created = [] ∧ p.decide (a.run p c).1 now = { create := 0, terminate := [] } := by
  let order := c.idle.mergeSort retiredBefore
  let k := quota p c.idle.length (c.idle.countP (p.isOverdue a.now))
  have horder := leastRecentFirst_mergeSort c
  have hdecide : p.decide c a.now =
      { create := 0, terminate := (order.take k).map (·.uid) } :=
    Policy.decide_eq_take a.now henough
  have hnobody : a.created = [] := by
    apply List.eq_nil_of_length_eq_zero
    rw [h.asked, hdecide]
  have hrun : (a.run p c).1 = c.retire ((order.take k).map (·.uid)) a.marked := by
    show (c.adopt a.created).1.retire (p.decide c a.now).terminate a.marked = _
    rw [hnobody, hdecide]
    rfl
  have hleft : (a.run p c).1.idle.Perm (order.drop k) :=
    hrun ▸ Collection.idle_retire_take hc horder.perm k a.marked
  have hcount : (a.run p c).1.idle.length = c.idle.length - k := by
    rw [hleft.length_eq, List.length_drop, horder.perm.length_eq]
  have hoverdue : (a.run p c).1.idle.countP (p.isOverdue a.now) =
      c.idle.countP (p.isOverdue a.now) - k := by
    rw [hleft.countP_eq, Policy.countP_drop (horder.ascending.imp Policy.isOverdue_of_changedBefore),
      horder.perm.countP_eq]
  have hearlier := Policy.countP_isOverdue_le (p := p) hnow (a.run p c).1.idle
  refine ⟨hnobody, (Policy.decide_eq_nothing_iff hspare).mpr ?_⟩
  have hk : k = max (c.idle.length - p.maxSpare)
    (min (c.idle.length - p.minSpare) (c.idle.countP (p.isOverdue a.now))) := rfl
  omega

/-- The policy asks for no more workers than it believes there is room for. -/
theorem length_created_le (h : a.Fits p c) : a.created.length ≤ p.max - c.size := by
  rw [h.asked]
  unfold Policy.decide
  dsimp only
  split
  · exact Nat.min_le_right _ _
  · exact Nat.zero_le _

end Pass.Fits

/-- A policy does not flap.  It makes a pass over any collection: the workers it
asks for are created, stamped with any time, and the ones it wants to retire are
marked terminated.  When it is asked again at the same time, or if the clock was
set back, it wants nothing, provided that the collection took all the workers;
and it asks again if one was refused.  A collection with as much room as the
policy believes refuses nobody. -/
theorem nothing_left_to_do {p : Policy} {c : Collection} {a : Pass}
    (hspare : p.minSpare ≤ p.maxSpare) (hc : c.Sound) (ha : a.Fits p c) :
    (p.max ≤ c.max → ∀ outcome ∈ (a.run p c).2, outcome = .ok ()) ∧
      ((∀ outcome ∈ (a.run p c).2, outcome = .ok ()) ↔
        ∀ now ≤ a.now, p.decide (a.run p c).1 now = { create := 0, terminate := [] }) := by
  constructor
  · intro hroom
    have hbounded := hc.bounded
    have hlength := ha.length_created_le
    exact (ha.fresh.counts_adopt hc).2.2.mpr (by omega)
  · rcases Nat.lt_or_ge c.idle.length p.minSpare with hfew | henough
    · constructor
      · intro htaken now _
        exact (ha.nothing_left_of_few hc hspare hfew now).mpr htaken
      · intro hnothing
        exact (ha.nothing_left_of_few hc hspare hfew a.now).mp (hnothing a.now UInt64.le_rfl)
    · refine iff_of_true ?_ fun now hnow => (ha.nothing_left_of_enough hc hspare henough hnow).2
      obtain ⟨hnobody, -⟩ := ha.nothing_left_of_enough hc hspare henough UInt64.le_rfl
      show ∀ outcome ∈ (c.adopt a.created).2, outcome = .ok ()
      rw [hnobody]
      exact fun _ h => nomatch h

/-- Of four idle workers one is above the upper bound, and that one and another
are overdue; the other two are all that the lower bound asks for.  When only one
worker idles, two more are missing, but there is room for one only. -/
theorem nothing_left_to_do_capped :
    let first : Record := { uid := ⟨1⟩, changedAt := 100 }
    let second : Record := { uid := ⟨2⟩, status := .waiting, changedAt := 100 }
    let early : Record := { uid := ⟨3⟩, changedAt := 5000 }
    let late : Record := { uid := ⟨4⟩, status := .waiting, changedAt := 3990 }
    let c := ((((Collection.empty 5).put late).put early).put second).put first
    let busy : Record := { early with status := .running }
    let gone : Record := { late with status := .terminated }
    let c' := ((((Collection.empty 5).put gone).put busy).put
      { second with status := .running }).put first
    let p : Policy := { minSpare := 2, maxSpare := 3, max := 5, idleTimeout := .ofSeconds 2 }
    let more : Policy := { p with minSpare := 3 }
    let a : Pass := { now := 4000, created := [], marked := fun _ => 4001 }
    let a' : Pass :=
      { now := 4000, created := [{ uid := ⟨5⟩, changedAt := 4000 }], marked := fun _ => 4001 }
    (p.minSpare ≤ p.maxSpare ∧ c.Sound ∧ a.Fits p c ∧
      p.decide c 4000 = { create := 0, terminate := [⟨1⟩, ⟨2⟩] } ∧
      p.decide (a.run p c).1 4000 = { create := 0, terminate := [] }) ∧
    (more.minSpare ≤ more.maxSpare ∧ c'.Sound ∧ a'.Fits more c' ∧
      more.decide c' 4000 = { create := 1, terminate := [] } ∧
      more.decide (a'.run more c').1 4000 = { create := 0, terminate := [] }) := by
  intro first second early late c busy gone c' p more a a'
  have hput : ∀ {c : Collection} (r : Record), c.Sound → c.size < c.max → (c.put r).Sound :=
    fun _ h hfree => h.put_of_room hfree
  have hc : c.Sound := hput _ (hput _ (hput _ (hput _ (Collection.sound_empty 5) (by decide))
    (by decide)) (by decide)) (by decide)
  have hc' : c'.Sound := hput _ (hput _ (hput _ (hput _ (Collection.sound_empty 5) (by decide))
    (by decide)) (by decide)) (by decide)
  have hspare : p.minSpare ≤ p.maxSpare := by decide
  have hmore : more.minSpare ≤ more.maxSpare := by decide
  have horder : LeastRecentFirst c [first, second, late, early] := ⟨by decide, by decide⟩
  have hdecide : p.decide c 4000 = { create := 0, terminate := [⟨1⟩, ⟨2⟩] } := by
    rw [Policy.decide_eq_take 4000 (by decide), List.map_take,
      (leastRecentFirst_mergeSort c).map_uid_eq horder]
    decide
  have hdecide' : more.decide c' 4000 = { create := 1, terminate := [] } :=
    (Policy.decide_of_few 4000 (by decide)).trans (by decide)
  have ha : a.Fits p c := ⟨by rw [hdecide]; rfl, by decide, by decide, by decide⟩
  have ha' : a'.Fits more c' := ⟨by rw [hdecide']; rfl, by decide, by decide, by decide⟩
  obtain ⟨htaken, hsettled⟩ := nothing_left_to_do hspare hc ha
  obtain ⟨htaken', hsettled'⟩ := nothing_left_to_do hmore hc' ha'
  exact ⟨⟨hspare, hc, ha, hdecide, hsettled.mp (htaken (by decide)) _ UInt64.le_rfl⟩,
    hmore, hc', ha', hdecide', hsettled'.mp (htaken' (by decide)) _ UInt64.le_rfl⟩

end Supervisor.Pool
