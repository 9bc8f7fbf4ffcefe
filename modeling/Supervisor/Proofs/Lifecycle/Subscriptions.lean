import Mathlib.Data.List.Induction
import Supervisor.Proofs.Lifecycle.Calls

/-!
# The order of handlers

A chain is sorted anew after every single entry.  This module compares it with
one stable sort of all entries of its kind.

* `StablySorted` says what a stable sort by descending priority is, without an
  algorithm: the priorities descend, and the entries of any one priority are
  in the order they had.  There is one such list only
  (`StablySorted.unique`), and `List.mergeSort` finds it
  (`stablySorted_mergeSort`).
* Sorting what was sorted before with one more entry is sorting all of it
  (`mergeSort_concat`), which carries over to whole subscriptions
  (`chains_subscribeAll`).
* `subscriptions_called_in_order` reads the calls of a raise off the chains.
-/

namespace Supervisor.Lifecycle

variable {σ : Type}

/-! ## Stable sorting -/

/-- The entries by descending priority, those of one priority in the order
they are in. -/
structure StablySorted (entries chain : List Handler) : Prop where
  descending : chain.Pairwise fun a b => b.priority ≤ a.priority
  stable : ∀ priority : Int32,
    chain.filter (·.priority = priority) = entries.filter (·.priority = priority)

theorem before_trans (a b c : Handler) (hab : a.before b = true) (hbc : b.before c = true) :
    a.before c = true :=
  decide_eq_true (Int32.le_trans (of_decide_eq_true hbc) (of_decide_eq_true hab))

theorem before_total (a b : Handler) : (a.before b || b.before a) = true := by
  rw [Bool.or_eq_true]
  exact (Int32.le_total b.priority a.priority).imp decide_eq_true decide_eq_true

namespace StablySorted

variable {entries more chain chain' : List Handler}

theorem mem_iff (h : StablySorted entries chain) {a : Handler} : a ∈ chain ↔ a ∈ entries := by
  have hmem : ∀ l : List Handler, a ∈ l ↔ a ∈ l.filter (·.priority = a.priority) := by simp
  rw [hmem chain, hmem entries, h.stable]

/-- The first of a sorted chain has the highest priority. -/
theorem priority_le_head {a b : Handler} (h : StablySorted entries (a :: chain))
    (hb : b ∈ entries) : b.priority ≤ a.priority := by
  rcases List.mem_cons.mp (h.mem_iff.mpr hb) with rfl | hb
  · exact Int32.le_refl _
  · exact List.rel_of_pairwise_cons h.descending hb

theorem tail {a : Handler} (h : StablySorted entries (a :: chain)) : StablySorted chain chain :=
  ⟨h.descending.of_cons, fun _ => rfl⟩

/-- There is only one way to sort stably. -/
theorem unique (h : StablySorted entries chain) (h' : StablySorted entries chain') :
    chain = chain' := by
  induction chain generalizing entries chain' with
  | nil =>
    symm
    apply List.eq_nil_iff_forall_not_mem.mpr
    intro a ha
    exact List.not_mem_nil (h.mem_iff.mpr (h'.mem_iff.mp ha))
  | cons a chain ih =>
    cases chain' with
    | nil => exact absurd (h'.mem_iff.mpr (h.mem_iff.mp List.mem_cons_self)) List.not_mem_nil
    | cons a' chain' =>
      have hpriority : a'.priority = a.priority :=
        Int32.le_antisymm (h.priority_le_head (h'.mem_iff.mp List.mem_cons_self))
          (h'.priority_le_head (h.mem_iff.mp List.mem_cons_self))
      have hstable : ∀ priority : Int32, (a :: chain).filter (·.priority = priority) =
          (a' :: chain').filter (·.priority = priority) :=
        fun priority => (h.stable priority).trans (h'.stable priority).symm
      have hhead : a = a' := by
        have heq := hstable a.priority
        rw [List.filter_cons_of_pos (by simp), List.filter_cons_of_pos (by simp [hpriority])] at heq
        exact (List.cons.inj heq).1
      subst hhead
      have htail : StablySorted chain' chain := by
        refine ⟨h.descending.of_cons, fun priority => ?_⟩
        have heq := hstable priority
        rw [List.filter_cons, List.filter_cons] at heq
        split at heq
        · exact (List.cons.inj heq).2
        · exact heq
      rw [ih htail h'.tail]

/-- More entries before the sort are more entries after it. -/
theorem append (h : StablySorted entries chain) (h' : StablySorted (chain ++ more) chain') :
    StablySorted (entries ++ more) chain' := by
  refine ⟨h'.descending, fun priority => ?_⟩
  rw [h'.stable, List.filter_append, h.stable, List.filter_append]

end StablySorted

theorem stablySorted_mergeSort (entries : List Handler) :
    StablySorted entries (entries.mergeSort Handler.before) := by
  refine ⟨?_, fun priority => ?_⟩
  · exact (List.pairwise_mergeSort before_trans before_total entries).imp of_decide_eq_true
  · -- Entries of one priority are sorted as they stand, so sorting keeps them in place.
    have hpairwise : (entries.filter (·.priority = priority)).Pairwise
        fun a b => a.before b = true := by
      apply List.pairwise_of_forall_mem_list
      intro a ha b hb
      simp only [List.mem_filter, decide_eq_true_eq] at ha hb
      exact decide_eq_true (by rw [ha.2, hb.2]; exact Int32.le_refl _)
    have hsub := (List.sublist_mergeSort before_trans before_total hpairwise
      List.filter_sublist).filter (·.priority = priority)
    rw [List.filter_filter] at hsub
    simp only [Bool.and_self] at hsub
    refine (hsub.eq_of_length ?_).symm
    exact ((List.mergeSort_perm entries Handler.before).filter _).length_eq.symm

/-- Sorting again after one more entry is sorting all at once. -/
theorem mergeSort_concat (entries : List Handler) (h : Handler) :
    (entries.mergeSort Handler.before ++ [h]).mergeSort Handler.before =
      (entries ++ [h]).mergeSort Handler.before :=
  ((stablySorted_mergeSort entries).append (stablySorted_mergeSort _)).unique
    (stablySorted_mergeSort _)

/-! ## Subscriptions -/

/-- A listener and the kinds it is subscribed to, each with a priority. -/
structure Subscription (σ : Type) where
  listener : Listener σ
  kinds : List (Kind × Int32)

namespace Subscription

/-- The entries for a kind, with the number of the listener. -/
def entries (kind : Kind) (i : Nat) (s : Subscription σ) : List Handler :=
  (s.kinds.filter (·.1 = kind)).map fun x => ⟨i, x.2⟩

end Subscription

/-- All entries for a kind, in the order in which they are subscribed. -/
def entriesOf (kind : Kind) (subscriptions : List (Subscription σ)) : List Handler :=
  subscriptions.zipIdx.flatMap fun (s, i) => s.entries kind i

theorem entriesOf_concat (kind : Kind) (subscriptions : List (Subscription σ))
    (s : Subscription σ) :
    entriesOf kind (subscriptions ++ [s]) =
      entriesOf kind subscriptions ++ s.entries kind subscriptions.length := by
  simp [entriesOf, List.zipIdx_append]

theorem listener_lt_of_mem_entriesOf {kind : Kind} {subscriptions : List (Subscription σ)}
    {h : Handler} (hh : h ∈ entriesOf kind subscriptions) : h.listener < subscriptions.length := by
  obtain ⟨⟨s, i⟩, hs, hh⟩ := List.mem_flatMap.mp hh
  obtain ⟨x, _, rfl⟩ := List.mem_map.mp hh
  exact List.snd_lt_of_mem_zipIdx hs

namespace Bus

/-- Subscribes listeners one after the other. -/
def subscribeAll (b : Bus σ) (subscriptions : List (Subscription σ)) : Bus σ :=
  subscriptions.foldl (fun b s => b.subscribe s.listener s.kinds) b

theorem subscribeAll_concat (b : Bus σ) (subscriptions : List (Subscription σ))
    (s : Subscription σ) :
    b.subscribeAll (subscriptions ++ [s]) =
      (b.subscribeAll subscriptions).subscribe s.listener s.kinds := by
  simp [subscribeAll, List.foldl_append]

/-- A subscription puts its entries after all that a chain was sorted from. -/
theorem chains_subscribe {b : Bus σ} {kind : Kind} {entries : List Handler}
    (h : b.chains kind = entries.mergeSort Handler.before) (s : Subscription σ) :
    (b.subscribe s.listener s.kinds).chains kind =
      (entries ++ s.entries kind b.listeners.length).mergeSort Handler.before := by
  obtain ⟨l, kinds⟩ := s
  unfold subscribe Subscription.entries
  dsimp only
  generalize b.listeners.length = i
  generalize b.chains = chains at h
  induction kinds generalizing entries chains with
  | nil => simpa using h
  | cons x kinds ih =>
    rw [List.foldl_cons]
    by_cases hx : x.1 = kind
    · have henrol : enrol chains x.1 ⟨i, x.2⟩ kind =
          (entries ++ [Handler.mk i x.2]).mergeSort Handler.before := by
        rw [enrol, if_pos hx.symm, h, mergeSort_concat]
      rw [ih _ henrol, List.filter_cons_of_pos (by simpa using hx), List.map_cons,
        List.append_assoc]
      rfl
    · have henrol : enrol chains x.1 ⟨i, x.2⟩ kind = entries.mergeSort Handler.before := by
        rw [enrol, if_neg (Ne.symm hx), h]
      rw [ih _ henrol, List.filter_cons_of_neg (by simpa using hx)]

theorem listeners_subscribeAll (subscriptions : List (Subscription σ)) :
    (empty.subscribeAll subscriptions).listeners = subscriptions.map (·.listener) := by
  induction subscriptions using List.reverseRecOn with
  | nil => rfl
  | append_singleton subscriptions s ih =>
    rw [subscribeAll_concat, subscribe, ih, List.map_append]
    rfl

/-- A chain is one stable sort of all entries of its kind. -/
theorem chains_subscribeAll (kind : Kind) (subscriptions : List (Subscription σ)) :
    (empty.subscribeAll subscriptions).chains kind =
      (entriesOf kind subscriptions).mergeSort Handler.before := by
  induction subscriptions using List.reverseRecOn with
  | nil => exact List.mergeSort_nil.symm
  | append_singleton subscriptions s ih =>
    rw [subscribeAll_concat, chains_subscribe ih, entriesOf_concat, listeners_subscribeAll,
      List.length_map]

theorem complete_subscribeAll (subscriptions : List (Subscription σ)) :
    (empty.subscribeAll subscriptions).Complete := by
  intro kind h hh
  rw [chains_subscribeAll, List.mem_mergeSort] at hh
  rw [listeners_subscribeAll, List.length_map]
  exact listener_lt_of_mem_entriesOf hh

theorem handlers_subscribeAll (kind : Kind) (subscriptions : List (Subscription σ)) :
    (empty.subscribeAll subscriptions).handlers kind = (entriesOf kind subscriptions).length := by
  rw [handlers, chains_subscribeAll, List.length_mergeSort]

/-! ## Calls -/

/-- If no call ends its chain early, all handlers of all chains are called. -/
theorem map_calls_of_passes {b : Bus σ} {dispatched : List Event} {visits : List (List Call)}
    (h : List.Forall₂ (fun e calls => Visits (b.chains e.kind) e calls) dispatched visits)
    (hpasses : ∀ c ∈ visits.flatten, c.Passes) :
    visits.flatten.map (fun c => (c.event, c.listener)) =
      dispatched.flatMap fun e => (b.chains e.kind).map fun h => (e, h.listener) := by
  induction h with
  | nil => rfl
  | @cons e calls dispatched visits hvisits _ ih =>
    rw [List.flatten_cons, List.forall_mem_append] at hpasses
    have hcalls : calls.map (fun c => (c.event, c.listener)) =
        (b.chains e.kind).map fun h => (e, h.listener) := by
      calc calls.map (fun c => (c.event, c.listener))
        _ = (calls.map (·.listener)).map fun i => (e, i) := by
          rw [List.map_map]
          exact List.map_congr_left fun c hc => by simp [hvisits.event c hc]
        _ = ((b.chains e.kind).map (·.listener)).map fun i => (e, i) := by
          rw [hvisits.full hpasses.1]
        _ = (b.chains e.kind).map fun h => (e, h.listener) := by
          rw [List.map_map]
          rfl
    rw [List.flatten_cons, List.map_append, List.flatMap_cons, hcalls, ih hpasses.2]

/-- However listeners are subscribed, the chain of every kind is one stable
sort by descending priority of all entries for that kind in the order in which
they were subscribed, and `handlers` is their number.  A raise calls the
handlers of the raised event first and then those of each event that it
returns: each handler of the chain once and in its order, up to the first that
fails or stops the propagation, so all of them if none does. -/
theorem subscriptions_called_in_order (subscriptions : List (Subscription σ)) :
    let b : Bus σ := empty.subscribeAll subscriptions
    (∀ kind, b.chains kind = (entriesOf kind subscriptions).mergeSort Handler.before ∧
        StablySorted (entriesOf kind subscriptions) (b.chains kind) ∧
        b.handlers kind = (entriesOf kind subscriptions).length) ∧
      ∀ e s, b.noted.raise e (s, []) = ((b.raise e s).1, (b.raise e s).2, b.calls e s) ∧
        ∃ dispatched visits, dispatched.head? = some e ∧
          (∀ events, (b.raise e s).1 = .ok events → dispatched = e :: events) ∧
          b.calls e s = visits.flatten ∧
          List.Forall₂ (fun e calls => Visits (b.chains e.kind) e calls) dispatched visits ∧
          ((∀ c ∈ b.calls e s, c.Passes) →
            (b.calls e s).map (fun c => (c.event, c.listener)) =
              dispatched.flatMap fun e => (b.chains e.kind).map fun h => (e, h.listener)) := by
  intro b
  refine ⟨fun kind => ?_, fun e s => ⟨raise_noted_nil b e s, ?_⟩⟩
  · have hchain := chains_subscribeAll kind subscriptions
    exact ⟨hchain, hchain ▸ stablySorted_mergeSort _, handlers_subscribeAll kind subscriptions⟩
  · obtain ⟨dispatched, visits, hcalls, hvisits, hhead, hok⟩ :=
      calls_visits (complete_subscribeAll subscriptions) e s
    refine ⟨dispatched, visits, hhead, hok, hcalls, hvisits, fun hpasses => ?_⟩
    rw [hcalls] at hpasses ⊢
    exact map_calls_of_passes hvisits hpasses

/-- One listener is subscribed twice, with another one between its entries. -/
example :
    let idle : Listener Unit := fun _ s => ({}, s)
    let b := empty.subscribeAll
      [⟨idle, [(.schedulerLoop, 1), (.schedulerLoop, 2)]⟩, ⟨idle, [(.schedulerLoop, 2)]⟩]
    (b.calls .schedulerLoop ()).map (·.listener) = [0, 1, 0] := by
  cbv

end Bus

end Supervisor.Lifecycle
