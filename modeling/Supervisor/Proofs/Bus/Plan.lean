import Mathlib.Data.List.Nodup
import Mathlib.Data.List.Perm.Basic
import Mathlib.Data.List.Perm.Subperm
import Supervisor.Bus.Plan

/-!
# The routing law

`Routed` says, without a word on dice, where an envelope may go.
`plan_routing_law` shows that these are exactly the decisions that `plan` takes
for some rolls: it never takes another one, and no choice that the law leaves
is out of reach.

The random picks are the only part with an argument in it.  `draw_subperm` says
that a draw repeats nothing, and `exists_draw` that every list of different
elements is drawn by some rolls; both follow the draw step by step, an element
and then a draw from what is left.
-/

namespace Supervisor.Bus

section Draws

variable {α : Type}

theorem draw_succ (n : Nat) (rolls : Nat → Nat) {l : List α} (h : rolls 0 % l.length < l.length) :
    draw (n + 1) rolls l =
      l[rolls 0 % l.length] :: draw n (fun k => rolls (k + 1)) (l.eraseIdx (rolls 0 % l.length)) := by
  cases l with
  | nil => exact absurd h (Nat.not_lt_zero _)
  | cons x xs =>
    show (x :: xs)[rolls 0 % (x :: xs).length]?.getD x :: _ = _
    rw [List.getElem?_eq_getElem h]
    rfl

theorem length_draw {n : Nat} {l : List α} (h : n ≤ l.length) (rolls : Nat → Nat) :
    (draw n rolls l).length = n := by
  induction n generalizing rolls l with
  | zero => rfl
  | succ n ih =>
    have hi : rolls 0 % l.length < l.length := Nat.mod_lt _ (by omega)
    have hleft : n ≤ (l.eraseIdx (rolls 0 % l.length)).length := by
      rw [List.length_eraseIdx_of_lt hi]
      omega
    rw [draw_succ n rolls hi, List.length_cons, ih hleft]

/-- A draw takes every element at most as often as it is there. -/
theorem draw_subperm (n : Nat) (rolls : Nat → Nat) (l : List α) : (draw n rolls l).Subperm l := by
  induction n generalizing rolls l with
  | zero => exact List.nil_subperm
  | succ n ih =>
    by_cases hl : l = []
    · subst hl
      exact List.nil_subperm
    · have hi : rolls 0 % l.length < l.length := Nat.mod_lt _ (List.length_pos_of_ne_nil hl)
      rw [draw_succ n rolls hi]
      exact ((List.subperm_cons _).mpr (ih _ _)).trans (List.getElem_cons_eraseIdx_perm hi).subperm

/-- Any elements, each as often as it is there at most, are drawn by some
rolls. -/
theorem exists_draw {picks l : List α} (h : picks.Subperm l) :
    ∃ rolls, draw picks.length rolls l = picks := by
  induction picks generalizing l with
  | nil => exact ⟨fun _ => 0, rfl⟩
  | cons x picks ih =>
    obtain ⟨i, hi, rfl⟩ := List.getElem_of_mem (h.subset List.mem_cons_self)
    have hleft : picks.Subperm (l.eraseIdx i) :=
      (List.subperm_cons _).mp (h.trans (List.getElem_cons_eraseIdx_perm hi).symm.subperm)
    obtain ⟨rolls, hrolls⟩ := ih hleft
    refine ⟨fun | 0 => i | k + 1 => rolls k, ?_⟩
    have hmod : i % l.length = i := Nat.mod_eq_of_lt hi
    rw [List.length_cons, draw_succ _ _ (by simpa only [hmod] using hi)]
    simp only [hmod, hrolls]

/-- The draws of `n` different elements out of a list without duplicates. -/
theorem exists_draw_iff {n : Nat} {l picks : List α} (hl : l.Nodup) (h : n ≤ l.length) :
    (∃ rolls, draw n rolls l = picks) ↔ picks.length = n ∧ picks.Nodup ∧ picks ⊆ l := by
  constructor
  · rintro ⟨rolls, rfl⟩
    obtain ⟨l', hperm, hsub⟩ := draw_subperm n rolls l
    exact ⟨length_draw h rolls, hperm.nodup_iff.mp (hsub.nodup hl),
      (draw_subperm n rolls l).subset⟩
  · rintro ⟨rfl, hnodup, hsubset⟩
    exact exists_draw (List.subperm_of_subset hnodup hsubset)

end Draws

/-! ## The law -/

/-- The connected workers without the sender and the scheduler. -/
def others (sender : WorkerId) (connected : List WorkerId) : List WorkerId :=
  (connected.erase sender).erase WorkerId.server

/-- Where an envelope may go. -/
inductive Routed (e : Envelope) (connected : List WorkerId) : Delivery → Prop where
  | all : e.audience = .all → Routed e connected (.recipients (others e.sender connected))
  | any {uid : WorkerId} : e.audience = .any → uid ∈ others e.sender connected →
      Routed e connected (.recipients [uid])
  | anyWaits : e.audience = .any → others e.sender connected = [] → Routed e connected .requeue
  | amount {uids : List WorkerId} : e.audience = .amount → uids.length = e.number.toNat →
      uids.Nodup → uids ⊆ others e.sender connected → Routed e connected (.recipients uids)
  | amountWaits : e.audience = .amount →
      (others e.sender connected).length < e.number.toNat → Routed e connected .requeue
  | selectedHome : e.audience = .selected → e.number = 0 → Routed e connected .atHome
  | selected : e.audience = .selected → e.number ≠ 0 → ⟨e.number⟩ ∈ connected →
      Routed e connected (.recipients [⟨e.number⟩])
  | selectedGone : e.audience = .selected → e.number ≠ 0 → ⟨e.number⟩ ∉ connected →
      Routed e connected .drop
  | home : e.audience = .server ∨ e.audience = .sender → Routed e connected .atHome

theorem mem_others {sender uid : WorkerId} {connected : List WorkerId} (h : connected.Nodup) :
    uid ∈ others sender connected ↔
      uid ∈ connected ∧ uid ≠ sender ∧ uid ≠ WorkerId.server := by
  unfold others
  rw [(h.erase sender).mem_erase_iff, h.mem_erase_iff]
  exact ⟨fun ⟨h0, hs, hc⟩ => ⟨hc, hs, h0⟩, fun ⟨hc, hs, h0⟩ => ⟨h0, hs, hc⟩⟩

theorem nodup_others (sender : WorkerId) {connected : List WorkerId} (h : connected.Nodup) :
    (others sender connected).Nodup :=
  (h.erase _).erase _

theorem isServer_iff_val {uid : WorkerId} : uid.isServer = true ↔ uid.val = 0 :=
  beq_iff_eq

theorem isServer_iff {uid : WorkerId} : uid.isServer = true ↔ uid = WorkerId.server := by
  rw [isServer_iff_val]
  exact ⟨fun h => Id.ext_val h, fun h => congrArg Id.val h⟩

theorem candidates_eq_others (sender : WorkerId) {connected : List WorkerId}
    (h : connected.Nodup) : candidates sender connected = others sender connected := by
  unfold candidates others
  rw [(h.erase sender).erase_eq_filter, h.erase_eq_filter, List.filter_filter]
  refine List.filter_congr fun uid _ => ?_
  rw [Bool.eq_iff_iff, decide_eq_true_iff, Bool.and_eq_true, isServer_iff]
  simp only [bne_iff_ne]
  exact and_comm

theorem routed_plan (e : Envelope) {connected : List WorkerId} (h : connected.Nodup)
    (rolls : Nat → Nat) : Routed e connected (plan e connected rolls) := by
  have hothers := nodup_others e.sender h
  unfold plan
  simp only [candidates_eq_others e.sender h]
  split
  case h_1 haudience => exact .all haudience
  case h_2 haudience =>
    split
    · rename_i hnone
      exact .anyWaits haudience (List.isEmpty_iff.mp hnone)
    · rename_i hsome
      rw [List.isEmpty_iff] at hsome
      have hlen : 1 ≤ (others e.sender connected).length := List.length_pos_of_ne_nil hsome
      obtain ⟨hone, _, hsubset⟩ := (exists_draw_iff hothers hlen).mp ⟨rolls, rfl⟩
      obtain ⟨uid, huid⟩ := List.length_eq_one_iff.mp hone
      rw [huid] at hsubset ⊢
      exact .any haudience (hsubset List.mem_cons_self)
  case h_3 haudience =>
    split
    · rename_i hfew
      exact .amountWaits haudience hfew
    · rename_i henough
      rw [Nat.not_lt] at henough
      obtain ⟨hlength, hnodup, hsubset⟩ := (exists_draw_iff hothers henough).mp ⟨rolls, rfl⟩
      exact .amount haudience hlength hnodup hsubset
  case h_4 haudience =>
    split
    · rename_i hserver
      exact .selectedHome haudience (isServer_iff_val.mp hserver)
    · rename_i hserver
      have hsome : e.number ≠ 0 := fun hzero => hserver (isServer_iff_val.mpr hzero)
      split
      · rename_i hconnected
        exact .selected haudience hsome hconnected
      · rename_i hgone
        exact .selectedGone haudience hsome hgone
  case h_5 haudience => exact .home (Or.inl haudience)
  case h_6 haudience => exact .home (Or.inr haudience)

theorem Routed.exists_plan {e : Envelope} {connected : List WorkerId} {d : Delivery}
    (hrouted : Routed e connected d) (h : connected.Nodup) :
    ∃ rolls, plan e connected rolls = d := by
  have hothers := nodup_others e.sender h
  unfold plan
  simp only [candidates_eq_others e.sender h]
  cases hrouted with
  | all haudience => exact ⟨fun _ => 0, by simp only [haudience]⟩
  | @any uid haudience huid =>
    have hlen : 1 ≤ (others e.sender connected).length := List.length_pos_of_mem huid
    obtain ⟨rolls, hrolls⟩ := (exists_draw_iff hothers hlen).mpr
      ⟨rfl, List.nodup_singleton uid, List.cons_subset.mpr ⟨huid, List.nil_subset _⟩⟩
    refine ⟨rolls, ?_⟩
    have hsome : ¬ (others e.sender connected).isEmpty = true := by
      rw [List.isEmpty_iff]
      exact List.ne_nil_of_mem huid
    simp only [haudience]
    rw [if_neg hsome, hrolls]
  | anyWaits haudience hnone =>
    refine ⟨fun _ => 0, ?_⟩
    simp only [haudience]
    rw [if_pos (List.isEmpty_iff.mpr hnone)]
  | amount haudience hlength hnodup hsubset =>
    have henough := (List.subperm_of_subset hnodup hsubset).length_le
    rw [hlength] at henough
    obtain ⟨rolls, hrolls⟩ := (exists_draw_iff hothers henough).mpr ⟨hlength, hnodup, hsubset⟩
    refine ⟨rolls, ?_⟩
    simp only [haudience]
    rw [if_neg (Nat.not_lt.mpr henough), hrolls]
  | amountWaits haudience hfew =>
    refine ⟨fun _ => 0, ?_⟩
    simp only [haudience]
    rw [if_pos hfew]
  | selectedHome haudience hzero =>
    refine ⟨fun _ => 0, ?_⟩
    simp only [haudience, hzero]
    rfl
  | selected haudience hsome hconnected =>
    refine ⟨fun _ => 0, ?_⟩
    simp only [haudience]
    rw [if_neg fun hserver => hsome (isServer_iff_val.mp hserver), if_pos hconnected]
  | selectedGone haudience hsome hgone =>
    refine ⟨fun _ => 0, ?_⟩
    simp only [haudience]
    rw [if_neg fun hserver => hsome (isServer_iff_val.mp hserver), if_neg hgone]
  | home haudience =>
    refine ⟨fun _ => 0, ?_⟩
    rcases haudience with haudience | haudience <;> simp only [haudience]

/-- A broadcast goes to different workers among the others. -/
theorem Routed.broadcast {e : Envelope} {connected uids : List WorkerId}
    (hrouted : Routed e connected (.recipients uids)) (h : connected.Nodup)
    (haudience : e.audience ≠ .selected) :
    uids.Nodup ∧ uids ⊆ others e.sender connected := by
  cases hrouted with
  | all _ => exact ⟨nodup_others e.sender h, List.Subset.refl _⟩
  | any _ huid => exact ⟨List.nodup_singleton _, List.cons_subset.mpr ⟨huid, List.nil_subset _⟩⟩
  | amount _ _ hnodup hsubset => exact ⟨hnodup, hsubset⟩
  | selected hselected _ _ => exact absurd hselected haudience

/-- The routing law.  Whatever the dice say, an envelope goes where the law
lets it go, and the dice can lead to everything that the law allows.  A
broadcast never names the sender, the scheduler, a worker that is not connected
or a worker twice. -/
theorem plan_routing_law (e : Envelope) (connected : List WorkerId) (h : connected.Nodup) :
    (∀ d, (∃ rolls, plan e connected rolls = d) ↔ Routed e connected d) ∧
      (e.audience = .all ∨ e.audience = .any ∨ e.audience = .amount →
        ∀ rolls uids, plan e connected rolls = .recipients uids →
          uids.Nodup ∧ ∀ uid ∈ uids, uid ∈ connected ∧ uid ≠ e.sender ∧ uid ≠ WorkerId.server) := by
  refine ⟨fun d => ⟨?_, fun hrouted => hrouted.exists_plan h⟩, ?_⟩
  · rintro ⟨rolls, rfl⟩
    exact routed_plan e h rolls
  · intro haudience rolls uids hplan
    have hrouted := hplan ▸ routed_plan e h rolls
    obtain ⟨hnodup, hsubset⟩ := hrouted.broadcast h (by
      rcases haudience with haudience | haudience | haudience <;> rw [haudience] <;> decide)
    exact ⟨hnodup, fun uid huid => (mem_others h).mp (hsubset huid)⟩

/-- Two of three workers are wanted, and the sender is connected, too. -/
theorem plan_routing_law_amount :
    let connected : List WorkerId := [⟨0⟩, ⟨1⟩, ⟨2⟩, ⟨3⟩, ⟨4⟩]
    let e : Envelope := ⟨⟨1⟩, .amount, 2, .text "task"⟩
    connected.Nodup ∧ (∃ rolls, plan e connected rolls = .recipients [⟨4⟩, ⟨2⟩]) ∧
      ∀ rolls uids, plan e connected rolls = .recipients uids → uids.Nodup ∧ ⟨1⟩ ∉ uids := by
  intro connected e
  have hconnected : connected.Nodup := by decide
  obtain ⟨hlaw, hbroadcast⟩ := plan_routing_law e connected hconnected
  refine ⟨hconnected, (hlaw _).mpr (.amount rfl rfl (by decide) (by decide)), ?_⟩
  intro rolls uids hplan
  obtain ⟨hnodup, huids⟩ := hbroadcast (Or.inr (Or.inr rfl)) rolls uids hplan
  exact ⟨hnodup, fun hsender => (huids _ hsender).2.1 rfl⟩

end Supervisor.Bus
