import Mathlib.Data.List.Nodup
import Mathlib.Logic.Relation
import Supervisor.Pool.Policy
import Supervisor.Proofs.Pool.Collection

/-!
# The pool keeps to its size and to its band of idle workers

A pass asks the policy for a decision, tracks the workers created for it and
marks the retired ones terminated.  Between passes, reports move workers along
the status machine in any way and confirmed ends remove workers, so the number
of idle workers may be anything when a pass begins.  This module proves that
each pass brings it back between the bounds, as far as there is room, and that
the room is never exceeded.

* What the two halves of a pass do.  `Newcomers.adopt` says that workers that
  fit into the room are all taken, and `idle_retire` that retiring takes
  exactly the named workers out of the idle ones.
* What the policy decides.  `decide_of_enough` names the picked workers and
  bounds their number from both sides.
* Runs.  `Step` is one thing that happens to a pool and `Reachable` any number
  of them.  `Sound` is the invariant; a pass needs no more of the pool than
  that to end within the band.
-/

namespace Supervisor.Pool

open Supervisor.Worker (Record)

/-! ## Creating -/

/-- Records of freshly created workers that the collection does not track. -/
structure Newcomers (c : Collection) (created : List Record) : Prop where
  new : ∀ r ∈ created, r.status = .new
  untracked : ∀ r ∈ created, c.find? r.uid = none
  distinct : (created.map (·.uid)).Nodup

theorem Newcomers.sublist {c : Collection} {created part : List Record}
    (h : Newcomers c created) (hsub : part.Sublist created) : Newcomers c part where
  new r hr := h.new r (hsub.subset hr)
  untracked r hr := h.untracked r (hsub.subset hr)
  distinct := (hsub.map _).nodup h.distinct

theorem Newcomers.tail {c : Collection} {r : Record} {created : List Record}
    (h : Newcomers c (r :: created)) : Newcomers (c.put r) created where
  new r' hr' := h.new r' (List.mem_cons_of_mem _ hr')
  untracked r' hr' := by
    have hdistinct := h.distinct
    rw [List.map_cons, List.nodup_cons] at hdistinct
    have hne : r'.uid ≠ r.uid := fun huid =>
      hdistinct.1 (huid ▸ List.mem_map_of_mem hr')
    rw [Collection.find?_put, if_neg hne]
    exact h.untracked r' (List.mem_cons_of_mem _ hr')
  distinct := (List.nodup_cons.mp h.distinct).2

/-- Newcomers that fit into the room are all taken, and all of them are
idle. -/
theorem Newcomers.adopt {created : List Record} : ∀ {c : Collection}, Newcomers c created →
    c.Sound → c.size + created.length ≤ c.max →
      (c.adopt created).1.Sound ∧ (c.adopt created).1.max = c.max ∧
        (c.adopt created).1.size = c.size + created.length ∧
        (c.adopt created).1.idle.length = c.idle.length + created.length ∧
        (c.adopt created).2 = created.map fun _ => .ok () := by
  induction created with
  | nil =>
    intro c _ hc _
    exact ⟨hc, rfl, rfl, rfl, rfl⟩
  | cons r created ih =>
    intro c h hc hroom
    rw [List.length_cons] at hroom
    have hfree : c.size < c.max := by omega
    have huntracked := h.untracked r List.mem_cons_self
    have hidle : r.status.isIdle = true := by
      rw [h.new r List.mem_cons_self]
      rfl
    have hsize : (c.put r).size = c.size + 1 := Collection.size_put_of_untracked huntracked
    have hcount : (c.put r).idle.length = c.idle.length + 1 :=
      (Collection.idle_put_perm huntracked hidle).length_eq
    have hmax : (c.put r).max = c.max := rfl
    obtain ⟨hsound, hmax', hsize', hcount', hout⟩ :=
      ih h.tail (hc.put_of_room hfree) (by omega)
    simp only [Collection.adopt, Collection.insert_of_room hfree, List.length_cons,
      List.map_cons]
    refine ⟨hsound, hmax', ?_, ?_, by rw [hout]⟩
    · omega
    · omega

/-! ## Retiring -/

namespace Collection

theorem max_retire (uids : List WorkerId) (clock : WorkerId → Millis) : ∀ c : Collection,
    (c.retire uids clock).max = c.max := by
  induction uids with
  | nil => exact fun _ => rfl
  | cons uid uids ih =>
    intro c
    exact ih (c.markTerminated uid (clock uid))

theorem Sound.retire (uids : List WorkerId) (clock : WorkerId → Millis) :
    ∀ {c : Collection}, c.Sound → (c.retire uids clock).Sound := by
  induction uids with
  | nil => exact fun h => h
  | cons uid uids ih =>
    intro c h
    exact ih (h.markTerminated uid _)

/-- Retiring takes exactly the named workers out of the idle ones. -/
theorem idle_retire (uids : List WorkerId) (clock : WorkerId → Millis) :
    ∀ {c : Collection}, c.Sound →
      (c.retire uids clock).idle = c.idle.filter fun r => decide (r.uid ∉ uids) := by
  induction uids with
  | nil =>
    intro c _
    simp [retire]
  | cons uid uids ih =>
    intro c h
    have hrest := ih (h.markTerminated uid (clock uid))
    rw [idle_markTerminated h, List.filter_filter] at hrest
    refine hrest.trans (List.filter_congr fun r _ => ?_)
    rw [Bool.and_comm, ← Bool.decide_and]
    simp only [List.mem_cons, not_or]

/-- Of the idle workers, as many are left as were not retired. -/
theorem length_idle_retire {c : Collection} (h : c.Sound) {uids : List WorkerId}
    (hnodup : uids.Nodup) (hidle : uids ⊆ c.idle.map (·.uid)) (clock : WorkerId → Millis) :
    (c.retire uids clock).idle.length + uids.length = c.idle.length := by
  have hperm : ((c.idle.map (·.uid)).filter (fun uid => decide (uid ∉ uids)) ++ uids).Perm
      (c.idle.map (·.uid)) := by
    rw [List.perm_ext_iff_of_nodup _ h.nodup_idle_uids]
    · intro uid
      rw [List.mem_append, List.mem_filter, decide_eq_true_iff]
      constructor
      · rintro (hleft | hgone)
        · exact hleft.1
        · exact hidle hgone
      · intro huid
        by_cases hgone : uid ∈ uids
        · exact Or.inr hgone
        · exact Or.inl ⟨huid, hgone⟩
    · rw [List.nodup_append]
      refine ⟨h.nodup_idle_uids.filter _, hnodup, ?_⟩
      rintro uid hleft uid' hgone rfl
      exact (decide_eq_true_iff.mp (List.mem_filter.mp hleft).2) hgone
  have hlen := hperm.length_eq
  rw [List.length_append, List.filter_map, List.length_map, List.length_map] at hlen
  rw [idle_retire uids clock h]
  exact hlen

end Collection

/-! ## Deciding -/

namespace Policy

variable {p : Policy} {c : Collection}

theorem expired_sublist (now : Millis) (remaining : Nat) (rs : List Record) :
    (p.expired now remaining rs).Sublist rs := by
  induction rs generalizing remaining with
  | nil => exact List.Sublist.refl _
  | cons r rs ih =>
    unfold expired
    split
    · exact List.nil_sublist _
    · split
      · exact (ih _).cons_cons r
      · exact (ih _).cons r

/-- Retiring workers that idle too long never goes below the lower bound. -/
theorem length_expired_le (now : Millis) (remaining : Nat) (rs : List Record) :
    (p.expired now remaining rs).length ≤ remaining - p.minSpare := by
  induction rs generalizing remaining with
  | nil => exact Nat.zero_le _
  | cons r rs ih =>
    unfold expired
    split
    · exact Nat.zero_le _
    · split
      · have hrest := ih (remaining - 1)
        rw [List.length_cons]
        omega
      · exact ih remaining

theorem decide_of_few (now : Millis) (h : c.idle.length < p.minSpare) :
    p.decide c now =
      { create := min (p.minSpare - c.idle.length) (p.max - c.size), terminate := [] } := by
  unfold decide
  exact if_pos h

/-- With enough idle workers nobody is created.  Some of the idle ones are
picked in the order of their last change, at least those above the upper bound
and at most those above the lower one. -/
theorem decide_of_enough (now : Millis) (hspare : p.minSpare ≤ p.maxSpare)
    (h : p.minSpare ≤ c.idle.length) :
    ∃ picked : List Record,
      p.decide c now = { create := 0, terminate := picked.map (·.uid) } ∧
        picked.Sublist (c.idle.mergeSort retiredBefore) ∧
        c.idle.length - p.maxSpare ≤ picked.length ∧
        picked.length ≤ c.idle.length - p.minSpare := by
  let order := c.idle.mergeSort retiredBefore
  let excess := c.idle.length - p.maxSpare
  let late := p.expired now (c.idle.length - excess) (order.drop excess)
  have horder : order.length = c.idle.length := List.length_mergeSort _
  have hlate : late.length ≤ c.idle.length - excess - p.minSpare := length_expired_le _ _ _
  have hpicked : (order.take excess ++ late).length = excess + late.length := by
    rw [List.length_append, List.length_take, horder]
    omega
  refine ⟨order.take excess ++ late, ?_, ?_, ?_, ?_⟩
  · unfold decide
    exact if_neg (Nat.not_lt.mpr h)
  · have hsub := (List.Sublist.refl (order.take excess)).append
      (expired_sublist now (c.idle.length - excess) (order.drop excess) : late.Sublist _)
    rwa [List.take_append_drop] at hsub
  · omega
  · omega

end Policy

/-! ## A pass -/

/-- What the surroundings bring into a pass: the time of the decision, the
records of the workers created for it and the times at which the retired ones
are marked. -/
structure Pass where
  now : Millis
  created : List Record
  marked : WorkerId → Millis

/-- One pass over a collection, with the outcome of every insertion. -/
def Pass.run (a : Pass) (p : Policy) (c : Collection) : Collection × List (Except Error Unit) :=
  let (adopted, outcomes) := c.adopt a.created
  (adopted.retire (p.decide c a.now).terminate a.marked, outcomes)

/-- The workers of the pass are those that the policy asks for. -/
structure Pass.Fits (a : Pass) (p : Policy) (c : Collection) : Prop where
  asked : a.created.length = (p.decide c a.now).create
  fresh : Newcomers c a.created

/-- A collection within the bounds of its policy, as far as there is room. -/
structure InBand (p : Policy) (c : Collection) : Prop where
  most : c.idle.length ≤ p.maxSpare
  fewest : p.minSpare ≤ c.idle.length ∨ c.size = p.max

/-- The policy never asks for more workers than there is room for. -/
theorem Policy.size_add_create_le {p : Policy} {c : Collection} (now : Millis)
    (hspare : p.minSpare ≤ p.maxSpare) (hroom : c.size ≤ p.max) :
    c.size + (p.decide c now).create ≤ p.max := by
  rcases Nat.lt_or_ge c.idle.length p.minSpare with hfew | henough
  · rw [decide_of_few now hfew]
    show c.size + min _ (p.max - c.size) ≤ p.max
    omega
  · obtain ⟨picked, hdecide, _⟩ := decide_of_enough now hspare henough
    rw [hdecide]
    exact hroom

namespace Pass.Fits

variable {a : Pass} {p : Policy} {c : Collection}

/-- With too few idle workers a pass creates what is missing or fills the
collection up. -/
theorem inBand_of_few (h : a.Fits p c) (hc : c.Sound) (hmax : c.max = p.max)
    (hspare : p.minSpare ≤ p.maxSpare) (hfew : c.idle.length < p.minSpare) :
    InBand p (a.run p c).1 := by
  have hdecide := Policy.decide_of_few a.now hfew
  have hasked : a.created.length = min (p.minSpare - c.idle.length) (p.max - c.size) := by
    rw [h.asked, hdecide]
  have hbounded := hc.bounded
  obtain ⟨_, _, hsize, hcount, _⟩ := h.fresh.adopt hc (by omega)
  have hrun : (a.run p c).1 = (c.adopt a.created).1 := by
    show (c.adopt a.created).1.retire (p.decide c a.now).terminate a.marked = _
    rw [hdecide]
    rfl
  rw [← hrun] at hsize hcount
  constructor
  · omega
  · omega

/-- With enough idle workers a pass retires those above the upper bound and
keeps as many as the lower one asks for. -/
theorem inBand_of_enough (h : a.Fits p c) (hc : c.Sound)
    (hspare : p.minSpare ≤ p.maxSpare) (henough : p.minSpare ≤ c.idle.length) :
    InBand p (a.run p c).1 := by
  obtain ⟨picked, hdecide, hsub, hleast, hmost⟩ :=
    Policy.decide_of_enough a.now hspare henough
  have hasked := h.asked
  rw [hdecide] at hasked
  have hrun : (a.run p c).1 = c.retire (picked.map (·.uid)) a.marked := by
    show (c.adopt a.created).1.retire (p.decide c a.now).terminate a.marked = _
    rw [List.eq_nil_of_length_eq_zero hasked, hdecide]
    rfl
  have hperm : ((c.idle.mergeSort retiredBefore).map (·.uid)).Perm (c.idle.map (·.uid)) :=
    (List.mergeSort_perm _ _).map _
  have hsubuids := hsub.map (·.uid)
  have hleft := Collection.length_idle_retire hc (hsubuids.nodup (hperm.nodup_iff.mpr
    hc.nodup_idle_uids)) (fun uid huid => hperm.subset (hsubuids.subset huid)) a.marked
  rw [← hrun, List.length_map] at hleft
  constructor
  · omega
  · omega

/-- What a pass does to a sound collection: nobody is turned away, and it ends
within the band. -/
theorem run_sound (h : a.Fits p c) (hc : c.Sound) (hmax : c.max = p.max)
    (hspare : p.minSpare ≤ p.maxSpare) :
    (a.run p c).1.Sound ∧ (a.run p c).1.max = p.max ∧
      (a.run p c).2 = a.created.map (fun _ => .ok ()) ∧ InBand p (a.run p c).1 := by
  have hroom : c.size + a.created.length ≤ c.max := by
    rw [h.asked, hmax]
    exact Policy.size_add_create_le a.now hspare (hmax ▸ hc.bounded)
  obtain ⟨hsound, hmax', _, _, hout⟩ := h.fresh.adopt hc hroom
  refine ⟨hsound.retire _ _, ?_, hout, ?_⟩
  · exact (Collection.max_retire _ _ _).trans (hmax'.trans hmax)
  · rcases Nat.lt_or_ge c.idle.length p.minSpare with hfew | henough
    · exact h.inBand_of_few hc hmax hspare hfew
    · exact h.inBand_of_enough hc hspare henough

end Pass.Fits

/-! ## Runs -/

/-- One thing that happens to a pool that a policy scales: a pass, a report
that is accepted or refused, or the confirmed end of a worker. -/
inductive Step (p : Policy) : Collection → Collection → Prop where
  | pass {c : Collection} (a : Pass) (h : a.Fits p c) : Step p c (a.run p c).1
  | report {c c' : Collection} (r : Record) (h : c.update r = .ok c') : Step p c c'
  | refused {c : Collection} (r : Record) (e : Error) (h : c.update r = .error e) : Step p c c
  | ended {c : Collection} (uid : WorkerId) : Step p c (c.remove uid)

/-- The collections that a policy with as much room meets. -/
def Reachable (p : Policy) (c : Collection) : Prop :=
  Relation.ReflTransGen (Step p) (.empty p.max) c

theorem Step.sound {p : Policy} {c c' : Collection} (hstep : Step p c c')
    (hspare : p.minSpare ≤ p.maxSpare) (h : c.Sound ∧ c.max = p.max) :
    c'.Sound ∧ c'.max = p.max := by
  obtain ⟨hc, hmax⟩ := h
  cases hstep with
  | pass a hfits =>
    obtain ⟨hsound, hmax', _⟩ := hfits.run_sound hc hmax hspare
    exact ⟨hsound, hmax'⟩
  | report r hupdate => exact ⟨hc.update hupdate, (Collection.max_update hupdate).trans hmax⟩
  | refused => exact ⟨hc, hmax⟩
  | ended uid => exact ⟨hc.remove uid, hmax⟩

theorem Reachable.sound {p : Policy} {c : Collection} (hc : Reachable p c)
    (hspare : p.minSpare ≤ p.maxSpare) : c.Sound ∧ c.max = p.max := by
  induction hc with
  | refl => exact ⟨Collection.sound_empty p.max, rfl⟩
  | tail _ hstep ih => exact hstep.sound hspare ih

/-- However its workers report and end, a pool never holds more workers than
it may, also while a pass adds workers to it; a pass is never refused a worker
and always ends within the band. -/
theorem pool_stays_in_band {p : Policy} {c : Collection} (hspare : p.minSpare ≤ p.maxSpare)
    (hc : Reachable p c) :
    c.size ≤ p.max ∧ ∀ a : Pass, a.Fits p c →
      (∀ n, (c.adopt (a.created.take n)).1.size ≤ p.max) ∧
        (a.run p c).2 = a.created.map (fun _ => .ok ()) ∧
        InBand p (a.run p c).1 := by
  obtain ⟨hsound, hmax⟩ := hc.sound hspare
  have hbounded := hmax ▸ hsound.bounded
  refine ⟨hbounded, fun a ha => ⟨fun n => ?_, ?_⟩⟩
  · have hroom := Policy.size_add_create_le a.now hspare hbounded
    rw [← ha.asked] at hroom
    have htake : (a.created.take n).length ≤ a.created.length := List.length_take_le' _ _
    obtain ⟨_, _, hsize, _⟩ :=
      (ha.fresh.sublist (List.take_sublist n a.created)).adopt hsound (by omega)
    omega
  · exact (ha.run_sound hsound hmax hspare).2.2

/-- The first worker is busy when a pass creates the second one and idles
again before the next pass, which retires the second. -/
theorem pool_stays_in_band_idle_again :
    let p : Policy := { minSpare := 1, maxSpare := 1, max := 2, idleTimeout := .zero }
    let first : Record := { uid := ⟨1⟩, service := "echo" }
    let second : Record := { uid := ⟨2⟩, service := "echo", changedAt := 30 }
    let waiting : Record := { first with status := .waiting, changedAt := 40 }
    let c := ((Collection.empty 2).put second).put waiting
    let a : Pass := { now := 50, created := [], marked := fun _ => 50 }
    p.minSpare ≤ p.maxSpare ∧ Reachable p c ∧ a.Fits p c ∧ InBand p (a.run p c).1 := by
  intro p first second waiting c a
  have hspare : p.minSpare ≤ p.maxSpare := Nat.le_refl 1
  have hc : Reachable p c := by
    let running : Record := { first with status := .running, changedAt := 20 }
    let one : Pass := { now := 0, created := [first], marked := fun _ => 0 }
    let two : Pass := { now := 30, created := [second], marked := fun _ => 30 }
    have hone : one.Fits p (.empty 2) := ⟨by decide +kernel, by decide, by decide, by decide⟩
    have htwo : two.Fits p ((Collection.empty 2).put running) :=
      ⟨by decide +kernel, by decide, by decide, by decide⟩
    have hnew : Reachable p ((Collection.empty 2).put first) := .tail .refl (.pass one hone)
    have hready : Reachable p ((Collection.empty 2).put waiting) :=
      hnew.tail (.report waiting (by decide +kernel))
    have hbusy : Reachable p ((Collection.empty 2).put running) :=
      hready.tail (.report running (by decide +kernel))
    have hboth : Reachable p (((Collection.empty 2).put running).put second) :=
      hbusy.tail (.pass two htwo)
    exact hboth.tail (.report waiting (by decide +kernel))
  have ha : a.Fits p c := ⟨by decide +kernel, by decide, by decide, by decide⟩
  exact ⟨hspare, hc, ha, ((pool_stays_in_band hspare hc).2 a ha).2.2⟩

end Supervisor.Pool
