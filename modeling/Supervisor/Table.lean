import Supervisor.Id

/-!
# Tables by identifier

A finite map from identifiers of one kind to values, kept as a list of entries in ascending order
of the identifier.  The order is part of the type, so two tables with the same look-ups are
equal (`Table.ext_find?`), and walking a table visits the identifiers in order.

The look-up laws say what every operation does to `find?`: `find?_insert`, `find?_erase`,
`find?_modify`, `find?_filter`.
-/

namespace Supervisor

/-- A finite map with entries in ascending order of the identifier. -/
structure Table (kind : IdKind) (α : Type) where
  entries : List (Id kind × α)
  sorted : entries.Pairwise fun a b => a.1.val < b.1.val

namespace Table

variable {kind : IdKind} {α β : Type}

@[ext] theorem ext_entries {t u : Table kind α} (h : t.entries = u.entries) : t = u := by
  cases t; cases u; cases h; rfl

instance [DecidableEq α] : DecidableEq (Table kind α) := fun t u =>
  decidable_of_iff (t.entries = u.entries) ⟨ext_entries, fun h => h ▸ rfl⟩

instance [Repr α] : Repr (Table kind α) := ⟨fun t n => reprPrec t.entries n⟩

/-- The table without entries. -/
def empty : Table kind α := ⟨[], .nil⟩

instance : EmptyCollection (Table kind α) := ⟨empty⟩
instance : Inhabited (Table kind α) := ⟨empty⟩

/-- The value of an identifier. -/
def find? (t : Table kind α) (k : Id kind) : Option α :=
  (t.entries.find? fun e => e.1 = k).map (·.2)

/-- Whether the identifier has a value. -/
def contains (t : Table kind α) (k : Id kind) : Bool :=
  (t.find? k).isSome

/-- The identifiers with a value, ascending. -/
def keys (t : Table kind α) : List (Id kind) :=
  t.entries.map (·.1)

/-- The values, in the order of their identifiers. -/
def values (t : Table kind α) : List α :=
  t.entries.map (·.2)

/-- Number of entries. -/
def size (t : Table kind α) : Nat :=
  t.entries.length

/-- Puts an entry at its place in an ascending list, over the entry with the same identifier. -/
def put (k : Id kind) (v : α) : List (Id kind × α) → List (Id kind × α)
  | [] => [(k, v)]
  | e :: rest =>
    if k.val < e.1.val then (k, v) :: e :: rest
    else if e.1 = k then (k, v) :: rest
    else e :: put k v rest

theorem mem_put {k : Id kind} {v : α} {l : List (Id kind × α)} {e : Id kind × α}
    (h : e ∈ put k v l) : e = (k, v) ∨ e ∈ l := by
  induction l with
  | nil => simpa [put] using h
  | cons f rest ih =>
    unfold put at h
    split at h
    · simpa using h
    · split at h
      · rcases List.mem_cons.mp h with h | h
        · exact .inl h
        · exact .inr (List.mem_cons_of_mem _ h)
      · rcases List.mem_cons.mp h with h | h
        · exact .inr (h ▸ List.mem_cons_self)
        · exact (ih h).imp_right (List.mem_cons_of_mem _)

theorem pairwise_put (k : Id kind) (v : α) {l : List (Id kind × α)}
    (h : l.Pairwise fun a b => a.1.val < b.1.val) :
    (put k v l).Pairwise fun a b => a.1.val < b.1.val := by
  induction l with
  | nil => simp [put]
  | cons f rest ih =>
    rw [List.pairwise_cons] at h
    unfold put
    split
    · rename_i hlt
      refine List.pairwise_cons.mpr ⟨fun e he => ?_, List.pairwise_cons.mpr h⟩
      rcases List.mem_cons.mp he with rfl | he
      · exact hlt
      · exact UInt64.lt_trans hlt (h.1 e he)
    · rename_i hge
      split
      · rename_i heq
        exact List.pairwise_cons.mpr ⟨fun e he => heq ▸ h.1 e he, h.2⟩
      · rename_i hne
        refine List.pairwise_cons.mpr ⟨fun e he => ?_, ih h.2⟩
        rcases mem_put he with rfl | he
        · have hne' : f.1.val.toNat ≠ k.val.toNat := fun hv =>
            hne (Id.ext_val (UInt64.toNat_inj.mp hv))
          rw [UInt64.lt_iff_toNat_lt] at hge
          show f.1.val < k.val
          rw [UInt64.lt_iff_toNat_lt]
          omega
        · exact h.1 e he

/-- Gives an identifier a value, replacing the one it had. -/
def insert (t : Table kind α) (k : Id kind) (v : α) : Table kind α :=
  ⟨put k v t.entries, pairwise_put k v t.sorted⟩

/-- Removes an identifier. -/
def erase (t : Table kind α) (k : Id kind) : Table kind α :=
  ⟨t.entries.filter fun e => e.1 ≠ k, t.sorted.filter _⟩

/-- Keeps the entries that pass a test. -/
def filter (t : Table kind α) (p : Id kind → α → Bool) : Table kind α :=
  ⟨t.entries.filter fun e => p e.1 e.2, t.sorted.filter _⟩

/-- Changes every value. -/
def map (t : Table kind α) (f : Id kind → α → β) : Table kind β :=
  ⟨t.entries.map fun e => (e.1, f e.1 e.2), by
    rw [List.pairwise_map]
    exact t.sorted⟩

/-- Changes the value of one identifier, if it has one. -/
def modify (t : Table kind α) (k : Id kind) (f : α → α) : Table kind α :=
  t.map fun k' v => if k' = k then f v else v

/-! ## Look-up laws -/

@[simp] theorem find?_empty (k : Id kind) : (empty : Table kind α).find? k = none := rfl

@[simp] theorem find?_emptyCollection (k : Id kind) : (∅ : Table kind α).find? k = none := rfl

theorem mem_keys_of_mem {t : Table kind α} {k : Id kind} {v : α} (h : (k, v) ∈ t.entries) :
    k ∈ t.keys :=
  List.mem_map.mpr ⟨_, h, rfl⟩

theorem find?_eq_some_iff {t : Table kind α} {k : Id kind} {v : α} :
    t.find? k = some v ↔ (k, v) ∈ t.entries := by
  obtain ⟨l, hl⟩ := t
  simp only [find?]
  induction l with
  | nil => simp
  | cons e rest ih =>
    rw [List.pairwise_cons] at hl
    by_cases h : e.1 = k
    · simp only [List.find?_cons, h, decide_true, Option.map_some, Option.some.injEq,
        List.mem_cons]
      constructor
      · rintro rfl
        exact .inl (by rw [← h])
      · rintro (rfl | hmem)
        · rfl
        · have := hl.1 _ hmem
          rw [h] at this
          exact absurd this (UInt64.lt_irrefl _)
    · simp only [List.find?_cons, h, decide_false, List.mem_cons]
      rw [ih hl.2]
      constructor
      · exact .inr
      · rintro (rfl | hmem)
        · exact absurd rfl h
        · exact hmem

theorem find?_eq_none_iff {t : Table kind α} {k : Id kind} :
    t.find? k = none ↔ k ∉ t.keys := by
  constructor
  · intro h hmem
    obtain ⟨e, he, rfl⟩ := List.mem_map.mp hmem
    rw [find?_eq_some_iff.mpr he] at h
    cases h
  · intro h
    cases hf : t.find? k with
    | none => rfl
    | some v => exact absurd (mem_keys_of_mem (find?_eq_some_iff.mp hf)) h

theorem contains_iff {t : Table kind α} {k : Id kind} : t.contains k = true ↔ k ∈ t.keys := by
  unfold contains
  cases hf : t.find? k with
  | none => simpa using find?_eq_none_iff.mp hf
  | some v => simpa using mem_keys_of_mem (find?_eq_some_iff.mp hf)

theorem find?_insert (t : Table kind α) (k k' : Id kind) (v : α) :
    (t.insert k v).find? k' = if k' = k then some v else t.find? k' := by
  obtain ⟨l, hl⟩ := t
  simp only [find?, insert]
  induction l with
  | nil =>
    by_cases h : k = k'
    · simp [put, h]
    · simp [put, h, Ne.symm h]
  | cons e rest ih =>
    rw [List.pairwise_cons] at hl
    unfold put
    split
    · by_cases h : k = k'
      · simp [h]
      · simp [h, Ne.symm h]
    · split
      · rename_i heq
        by_cases h : k = k'
        · simp [h]
        · have hne : ¬ e.1 = k' := fun he => h (heq.symm.trans he)
          simp [h, hne, Ne.symm h]
      · by_cases h : e.1 = k'
        · rename_i hne
          have hkk : ¬ k' = k := fun hk => hne (h.trans hk)
          simp [h, hkk]
        · simp only [List.find?_cons, h, decide_false]
          exact ih hl.2

theorem find?_filter (t : Table kind α) (p : Id kind → α → Bool) (k : Id kind) :
    (t.filter p).find? k = (t.find? k).filter (p k) := by
  cases h : t.find? k with
  | none =>
    rw [Option.filter_none, find?_eq_none_iff]
    intro hmem
    obtain ⟨e, he, rfl⟩ := List.mem_map.mp hmem
    exact find?_eq_none_iff.mp h (List.mem_map.mpr ⟨e, (List.mem_filter.mp he).1, rfl⟩)
  | some v =>
    have hv := find?_eq_some_iff.mp h
    by_cases hp : p k v = true
    · rw [Option.filter_some, if_pos hp, find?_eq_some_iff]
      exact List.mem_filter.mpr ⟨hv, hp⟩
    · rw [Option.filter_some, if_neg hp, find?_eq_none_iff]
      intro hmem
      obtain ⟨e, he, hek⟩ := List.mem_map.mp hmem
      obtain ⟨hmem', hpe⟩ := List.mem_filter.mp he
      have hev : t.find? k = some e.2 := find?_eq_some_iff.mpr (hek ▸ hmem')
      rw [h] at hev
      cases hev
      exact hp (hek ▸ hpe)

theorem find?_erase (t : Table kind α) (k k' : Id kind) :
    (t.erase k).find? k' = if k' = k then none else t.find? k' := by
  have h := find?_filter t (fun k'' _ => decide (k'' ≠ k)) k'
  have he : t.erase k = t.filter fun k'' _ => decide (k'' ≠ k) := rfl
  rw [he, h]
  by_cases hk : k' = k
  · subst hk
    cases hf : t.find? k' <;> simp
  · cases hf : t.find? k' <;> simp [hk]

theorem find?_map (t : Table kind α) (f : Id kind → α → β) (k : Id kind) :
    (t.map f).find? k = (t.find? k).map (f k) := by
  obtain ⟨l, hl⟩ := t
  simp only [find?, map]
  induction l with
  | nil => rfl
  | cons e rest ih =>
    by_cases h : e.1 = k
    · simp [h]
    · simp only [List.map_cons, List.find?_cons, h, decide_false]
      exact ih (List.pairwise_cons.mp hl).2

theorem find?_modify (t : Table kind α) (k k' : Id kind) (f : α → α) :
    (t.modify k f).find? k' = if k' = k then (t.find? k').map f else t.find? k' := by
  rw [modify, find?_map]
  by_cases h : k' = k
  · simp [h]
  · cases hf : t.find? k' <;> simp [h]

/-- A table is determined by its look-ups. -/
theorem ext_find? {t u : Table kind α} (h : ∀ k, t.find? k = u.find? k) : t = u := by
  apply ext_entries
  have hmem : ∀ e, e ∈ t.entries ↔ e ∈ u.entries := fun e => by
    rw [← find?_eq_some_iff (t := t), ← find?_eq_some_iff (t := u), h]
  obtain ⟨l, hl⟩ := t
  obtain ⟨m, hm⟩ := u
  simp only at hmem ⊢
  induction l generalizing m with
  | nil =>
    cases m with
    | nil => rfl
    | cons e rest => exact absurd ((hmem e).mpr List.mem_cons_self) (by simp)
  | cons e rest ih =>
    cases m with
    | nil => exact absurd ((hmem e).mp List.mem_cons_self) (by simp)
    | cons f tail =>
      have hl' := List.pairwise_cons.mp hl
      have hm' := List.pairwise_cons.mp hm
      have hef : e = f := by
        rcases List.mem_cons.mp ((hmem e).mp List.mem_cons_self) with he | he
        · exact he
        · rcases List.mem_cons.mp ((hmem f).mpr List.mem_cons_self) with hf | hf
          · exact hf.symm
          · exact absurd (UInt64.lt_trans (hm'.1 e he) (hl'.1 f hf)) (UInt64.lt_irrefl _)
      subst hef
      refine congrArg (e :: ·) (ih hl'.2 tail hm'.2 (fun k => ?_) fun x => ?_)
      · have hx : ∀ x, x ∈ rest ↔ x ∈ tail := fun x => by
          constructor
          · intro hx
            rcases List.mem_cons.mp ((hmem x).mp (List.mem_cons_of_mem _ hx)) with rfl | hx'
            · exact absurd (hl'.1 _ hx) (UInt64.lt_irrefl _)
            · exact hx'
          · intro hx
            rcases List.mem_cons.mp ((hmem x).mpr (List.mem_cons_of_mem _ hx)) with rfl | hx'
            · exact absurd (hm'.1 _ hx) (UInt64.lt_irrefl _)
            · exact hx'
        apply Option.ext
        intro v
        rw [find?_eq_some_iff, find?_eq_some_iff]
        exact hx (k, v)
      · constructor
        · intro hx
          rcases List.mem_cons.mp ((hmem x).mp (List.mem_cons_of_mem _ hx)) with rfl | hx'
          · exact absurd (hl'.1 _ hx) (UInt64.lt_irrefl _)
          · exact hx'
        · intro hx
          rcases List.mem_cons.mp ((hmem x).mpr (List.mem_cons_of_mem _ hx)) with rfl | hx'
          · exact absurd (hm'.1 _ hx) (UInt64.lt_irrefl _)
          · exact hx'

end Table

end Supervisor
