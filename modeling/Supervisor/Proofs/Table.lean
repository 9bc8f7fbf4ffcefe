import Mathlib.Data.List.Basic
import Supervisor.Table

/-!
# The entries of a table

The look-up laws of a table say what an operation does to each identifier.
This module says what it does to the entries as a whole, so that entries can be
counted.  The one fact behind all of it is `entries_insert_perm`: inserting
puts one entry beside those of the other identifiers.
-/

namespace Supervisor.Table

variable {kind : IdKind} {α : Type}

/-- Erasing an identifier without a value changes nothing. -/
theorem erase_of_find?_eq_none {t : Table kind α} {k : Id kind} (h : t.find? k = none) :
    t.erase k = t := by
  apply ext_find?
  intro k'
  rw [find?_erase]
  split
  · rename_i hk
    rw [hk, h]
  · rfl

/-- Inserting the value that an identifier has changes nothing. -/
theorem insert_of_find?_eq_some {t : Table kind α} {k : Id kind} {v : α}
    (h : t.find? k = some v) : t.insert k v = t := by
  apply ext_find?
  intro k'
  rw [find?_insert]
  split
  · rename_i hk
    rw [hk, h]
  · rfl

theorem modify_of_find?_eq_none {t : Table kind α} {k : Id kind} (f : α → α)
    (h : t.find? k = none) : t.modify k f = t := by
  apply ext_find?
  intro k'
  rw [find?_modify]
  split
  · rename_i hk
    rw [hk, h]
    rfl
  · rfl

/-- Changing a value is inserting the changed one. -/
theorem modify_of_find?_eq_some {t : Table kind α} {k : Id kind} {v : α} (f : α → α)
    (h : t.find? k = some v) : t.modify k f = t.insert k (f v) := by
  apply ext_find?
  intro k'
  rw [find?_modify, find?_insert]
  split
  · rename_i hk
    rw [hk, h]
    rfl
  · rfl

theorem filter_ne_of_lt {k : Id kind} {l : List (Id kind × α)}
    (h : ∀ e ∈ l, k.val < e.1.val) : l.filter (fun e => decide (e.1 ≠ k)) = l := by
  rw [List.filter_eq_self]
  intro e he
  refine decide_eq_true fun hk => ?_
  have hlt := h e he
  rw [hk] at hlt
  exact UInt64.lt_irrefl _ hlt

theorem put_perm (k : Id kind) (v : α) {l : List (Id kind × α)}
    (h : l.Pairwise fun a b => a.1.val < b.1.val) :
    (put k v l).Perm ((k, v) :: l.filter fun e => decide (e.1 ≠ k)) := by
  induction l with
  | nil => exact List.Perm.refl _
  | cons e rest ih =>
    rw [List.pairwise_cons] at h
    unfold put
    split
    · rename_i hlt
      have hall : ∀ f ∈ e :: rest, k.val < f.1.val := by
        intro f hf
        rcases List.mem_cons.mp hf with rfl | hf
        · exact hlt
        · exact UInt64.lt_trans hlt (h.1 f hf)
      rw [filter_ne_of_lt hall]
    · split
      · rename_i heq
        have hdrop : decide (e.1 ≠ k) = false := by simp [heq]
        rw [List.filter_cons, hdrop, filter_ne_of_lt fun f hf => heq ▸ h.1 f hf]
        exact List.Perm.refl _
      · rename_i hne
        have hkeep : decide (e.1 ≠ k) = true := decide_eq_true hne
        rw [List.filter_cons, hkeep, if_pos rfl]
        exact (List.Perm.cons e (ih h.2)).trans (List.Perm.swap _ _ _)

/-- Inserting puts one entry beside those of the other identifiers. -/
theorem entries_insert_perm (t : Table kind α) (k : Id kind) (v : α) :
    (t.insert k v).entries.Perm ((k, v) :: (t.erase k).entries) :=
  put_perm k v t.sorted

theorem values_insert_perm (t : Table kind α) (k : Id kind) (v : α) :
    (t.insert k v).values.Perm (v :: (t.erase k).values) :=
  (entries_insert_perm t k v).map Prod.snd

theorem size_insert (t : Table kind α) (k : Id kind) (v : α) :
    (t.insert k v).size = (t.erase k).size + 1 :=
  (entries_insert_perm t k v).length_eq

theorem size_insert_of_find?_eq_none {t : Table kind α} {k : Id kind} (v : α)
    (h : t.find? k = none) : (t.insert k v).size = t.size + 1 := by
  rw [size_insert, erase_of_find?_eq_none h]

/-- Replacing a value keeps the number of entries. -/
theorem size_insert_of_find?_eq_some {t : Table kind α} {k : Id kind} {v : α} (w : α)
    (h : t.find? k = some v) : (t.insert k w).size = t.size := by
  rw [size_insert, ← size_insert t k v, insert_of_find?_eq_some h]

/-- Erasing an identifier with a value takes one entry away. -/
theorem size_erase_of_contains {t : Table kind α} {k : Id kind} (h : t.contains k = true) :
    (t.erase k).size + 1 = t.size := by
  obtain ⟨v, hv⟩ := Option.isSome_iff_exists.mp h
  rw [← size_insert t k v, insert_of_find?_eq_some hv]

theorem size_erase_le (t : Table kind α) (k : Id kind) : (t.erase k).size ≤ t.size :=
  List.length_filter_le _ _

theorem size_modify (t : Table kind α) (k : Id kind) (f : α → α) : (t.modify k f).size = t.size :=
  List.length_map _

theorem contains_insert (t : Table kind α) (k k' : Id kind) (v : α) :
    (t.insert k v).contains k' = true ↔ k' = k ∨ t.contains k' = true := by
  unfold contains
  rw [find?_insert]
  split
  · simp [*]
  · simp [*]

theorem contains_erase (t : Table kind α) (k k' : Id kind) :
    (t.erase k).contains k' = true ↔ k' ≠ k ∧ t.contains k' = true := by
  unfold contains
  rw [find?_erase]
  split
  · simp [*]
  · simp [*]

theorem contains_modify (t : Table kind α) (k k' : Id kind) (f : α → α) :
    (t.modify k f).contains k' = t.contains k' := by
  rw [contains, contains, find?_modify]
  split
  · rw [Option.isSome_map]
  · rfl

theorem nodup_of_ascending {ids : List (Id kind)} (h : ids.Pairwise fun a b => a.val < b.val) :
    ids.Nodup := by
  refine h.imp fun hlt heq => ?_
  rw [heq] at hlt
  exact UInt64.lt_irrefl _ hlt

/-- Two ascending lists of the same identifiers are the same list. -/
theorem eq_of_ascending {as bs : List (Id kind)} (ha : as.Pairwise fun a b => a.val < b.val)
    (hb : bs.Pairwise fun a b => a.val < b.val) (h : ∀ k, k ∈ as ↔ k ∈ bs) : as = bs := by
  have hperm := (List.perm_ext_iff_of_nodup (nodup_of_ascending ha) (nodup_of_ascending hb)).mpr h
  refine hperm.eq_of_pairwise (fun a b _ _ hab hba => ?_) ha hb
  exact absurd (UInt64.lt_trans hab hba) (UInt64.lt_irrefl _)

/-- Each identifier has one entry. -/
theorem nodup_keys (t : Table kind α) : t.keys.Nodup :=
  nodup_of_ascending (List.pairwise_map.mpr t.sorted)

/-- Looking up the identifiers of some entries gives their values. -/
theorem filterMap_find?_filter (t : Table kind α) (p : Id kind × α → Bool) :
    ((t.entries.filter p).map Prod.fst).filterMap t.find? = (t.entries.filter p).map Prod.snd := by
  rw [List.filterMap_map, ← List.filterMap_eq_map]
  apply List.filterMap_congr
  intro e he
  exact find?_eq_some_iff.mpr (List.mem_filter.mp he).1

/-- The entries of a smaller table and those that it lacks. -/
theorem length_filter_not_contains {β : Type} {t : Table kind α} {u : Table kind β}
    (h : ∀ k, u.contains k = true → t.contains k = true) :
    (t.keys.filter fun k => !u.contains k).length + u.size = t.size := by
  have hperm : (t.keys.filter fun k => u.contains k).Perm u.keys := by
    rw [List.perm_ext_iff_of_nodup (t.nodup_keys.filter _) u.nodup_keys]
    intro k
    rw [List.mem_filter, ← contains_iff, ← contains_iff]
    exact ⟨fun hk => hk.2, fun hk => ⟨h k hk, hk⟩⟩
  have hsplit : t.keys.length = _ := List.length_eq_length_filter_add fun k => u.contains k
  have hkept := hperm.length_eq
  have ht : t.keys.length = t.size := List.length_map _
  have hu : u.keys.length = u.size := List.length_map _
  omega

end Supervisor.Table
