import Mathlib.Data.List.Induction
import Supervisor.Poll.Selector
import Supervisor.Proofs.Table
import Supervisor.Sim.World

/-!
# The keys and the ready list of a selector

A selector writes down twice what a poll found.  Each key tells for what its
stream is ready, and the ready list names the streams that are ready.

* `Operation` is what can be done with a selector and with the streams in it,
  and `run` is the selector after a sequence of operations.
* `Sound` is what all operations keep.  Between polls they do two things to
  the keys: they put one in its place (`Sound.insert`), or drop some together
  with their names in the ready list (`Sound.filter`).
* `select_of_reported`: a poll that succeeds makes the readiness of every key
  anew from what it reports, and forgets what was there before.
* `keys_and_ready_list` is the invariant of all runs, and
  `listed_are_ready_iff` says when the two notes of readiness agree.  They
  differ after interest is withdrawn in just what a key was ready for, while
  interest in something else is left.
-/

namespace Supervisor.Poll

variable {α σ : Type}

/-! ## Sets of operations -/

namespace Ops

theorem isEmpty_iff {o : Ops} : o.isEmpty = true ↔ o = .none :=
  decide_eq_true_iff

theorem eq_iff {a b : Ops} :
    a = b ↔ a.read = b.read ∧ a.write = b.write ∧ a.accept = b.accept := by
  cases a
  cases b
  simp

theorem subset_iff {a b : Ops} :
    a ⊆ b ↔ (a.read = true → b.read = true) ∧ (a.write = true → b.write = true) ∧
      (a.accept = true → b.accept = true) := by
  show a ∩ b = a ↔ _
  rw [eq_iff]
  show ((a.read && b.read) = a.read ∧ (a.write && b.write) = a.write ∧
    (a.accept && b.accept) = a.accept) ↔ _
  simp

theorem inter_subset_right (a b : Ops) : a ∩ b ⊆ b := by
  rw [subset_iff]
  show ((a.read && b.read) = true → _) ∧ ((a.write && b.write) = true → _) ∧
    ((a.accept && b.accept) = true → _)
  simp

theorem subset_union_left {a b : Ops} (c : Ops) (h : a ⊆ b) : a ⊆ b ∪ c := by
  rw [subset_iff] at h ⊢
  show (_ → (b.read || c.read) = true) ∧ (_ → (b.write || c.write) = true) ∧
    (_ → (b.accept || c.accept) = true)
  simp only [Bool.or_eq_true]
  exact ⟨fun ha => .inl (h.1 ha), fun ha => .inl (h.2.1 ha), fun ha => .inl (h.2.2 ha)⟩

theorem union_ne_none {a : Ops} (h : a ≠ .none) (b : Ops) : a ∪ b ≠ .none := by
  intro hunion
  apply h
  rw [eq_iff] at hunion ⊢
  have hor : (a.read || b.read) = false ∧ (a.write || b.write) = false ∧
      (a.accept || b.accept) = false := hunion
  simp only [Bool.or_eq_false_iff] at hor
  exact ⟨hor.1.1, hor.2.1.1, hor.2.2.1⟩

/-- What is left of some operations without others, if they are among those
that were there. -/
theorem inter_sdiff_eq_none_iff {a b : Ops} (h : a ⊆ b) (c : Ops) :
    a ∩ (b \ c) = .none ↔ a ⊆ c := by
  rw [subset_iff] at h ⊢
  rw [eq_iff]
  show ((a.read && (b.read && !c.read)) = false ∧ (a.write && (b.write && !c.write)) = false ∧
    (a.accept && (b.accept && !c.accept)) = false) ↔ _
  grind

end Ops

/-! ## Readiness -/

theorem readyOps_subset (kind : StreamKind) (interest : Ops) (r : Readiness) :
    readyOps kind interest r ⊆ interest := by
  unfold readyOps
  dsimp only
  split
  · rename_i h
    split
    · exact Ops.subset_iff.mpr ⟨nofun, nofun, fun _ => h.1⟩
    · exact Ops.subset_iff.mpr ⟨nofun, nofun, nofun⟩
  · exact Ops.inter_subset_right _ _

/-- A stream of which nothing is reported is ready for nothing. -/
theorem readyOps_of_isEmpty (kind : StreamKind) (interest : Ops) {r : Readiness}
    (h : r.isEmpty = true) : readyOps kind interest r = .none := by
  have hnone : r = {} := by
    obtain ⟨readable, writable, hangup, error⟩ := r
    simpa [Readiness.isEmpty, and_assoc] using h
  rw [hnone, readyOps, Ops.eq_iff]
  dsimp only
  split
  · simp [Ops.none]
  · exact ⟨rfl, rfl, rfl⟩

/-- A listener that is to accept is ready to accept or for nothing. -/
theorem readyOps_of_listener {interest : Ops} (h : interest.accept = true) (r : Readiness) :
    readyOps .listener interest r = .none ∨ readyOps .listener interest r = .accepting := by
  unfold readyOps
  dsimp only
  rw [if_pos ⟨h, rfl⟩]
  split
  · exact .inr rfl
  · exact .inl rfl

/-! ## Keys -/

/-- What is true of the key of a stream at all times. -/
structure Key.Sound (id : StreamId) (key : Key α) : Prop where
  keyed : key.stream.id = id
  interested : key.interest ≠ .none
  accepting : key.interest.accept = true → key.stream.kind = .listener
  ready : key.ready ⊆ key.interest

/-- Interest that a stream cannot have: in nothing, or in accepting without
being a listener. -/
def Unfit (st : Stream) (ops : Ops) : Prop :=
  ops = .none ∨ ops.accept = true ∧ st.kind ≠ .listener

theorem validate_cases (st : Stream) (ops : Ops) :
    (¬ Unfit st ops ∧ validate st ops = .ok ()) ∨
      (Unfit st ops ∧ validate st ops = .error (.invalidOps ops.bits)) := by
  unfold validate
  split
  · rename_i h
    exact .inr ⟨h.imp_left Ops.isEmpty_iff.mp, rfl⟩
  · rename_i h
    exact .inl ⟨fun hunfit => h (hunfit.imp_left Ops.isEmpty_iff.mpr), rfl⟩

theorem ne_none_of_fit {st : Stream} {ops : Ops} (h : ¬ Unfit st ops) : ops ≠ .none :=
  fun hnone => h (.inl hnone)

theorem listener_of_fit {st : Stream} {ops : Ops} (h : ¬ Unfit st ops)
    (haccept : ops.accept = true) : st.kind = .listener := by
  apply Classical.byContradiction
  exact fun hkind => h (.inr ⟨haccept, hkind⟩)

namespace Key.Sound

variable {id : StreamId} {key : Key α} {ops : Ops}

theorem registered {st : Stream} (hfit : ¬ Unfit st ops) (attachment : Option α) :
    Key.Sound st.id { stream := st, interest := ops, attachment } where
  keyed := rfl
  interested := ne_none_of_fit hfit
  accepting := listener_of_fit hfit
  ready := Ops.subset_iff.mpr ⟨nofun, nofun, nofun⟩

theorem reregistered (h : key.Sound id) (hfit : ¬ Unfit key.stream ops) :
    Key.Sound id { key with interest := key.interest ∪ ops } where
  keyed := h.keyed
  interested := Ops.union_ne_none h.interested ops
  accepting hunion := by
    have hor : (key.interest.accept || ops.accept) = true := hunion
    rcases Bool.or_eq_true_iff.mp hor with hkey | hops
    · exact h.accepting hkey
    · exact listener_of_fit hfit hops
  ready := Ops.subset_union_left ops h.ready

theorem unregistered (h : key.Sound id) (hleft : key.interest \ ops ≠ .none) :
    Key.Sound id
      { key with interest := key.interest \ ops, ready := key.ready ∩ (key.interest \ ops) } where
  keyed := h.keyed
  interested := hleft
  accepting hdiff := by
    have hand : (key.interest.accept && !ops.accept) = true := hdiff
    exact h.accepting (Bool.and_eq_true_iff.mp hand).1
  ready := Ops.inter_subset_right _ _

end Key.Sound

namespace Selector

/-- What is true of a selector at all times. -/
structure Sound (sel : Selector α) : Prop where
  key : ∀ {id key}, sel.keys.find? id = some key → key.Sound id
  listed : ∀ {id}, id ∈ sel.ready → sel.keys.contains id = true
  ready : ∀ {id key}, sel.keys.find? id = some key → key.ready ≠ .none → id ∈ sel.ready
  sorted : sel.ready.Pairwise fun a b => a.val < b.val

/-- Whatever the ready list names is ready for something. -/
def Current (sel : Selector α) : Prop :=
  ∀ id key, id ∈ sel.ready → sel.keys.find? id = some key → key.ready ≠ .none

variable {sel : Selector α}

theorem sound_empty : (empty : Selector α).Sound :=
  ⟨nofun, nofun, nofun, .nil⟩

theorem current_empty : (empty : Selector α).Current := by
  intro id key hid
  cases hid

theorem eq_of_parts {a b : Selector α} (hkeys : a.keys = b.keys) (hready : a.ready = b.ready) :
    a = b := by
  cases a
  cases hkeys
  cases hready
  rfl

/-- In a sound selector the keys that are listed are those that are ready,
exactly if whatever is listed is ready. -/
theorem Sound.selectionKeys_eq_iff (h : sel.Sound) :
    sel.selectionKeys = sel.keys.values.filter (fun key => !key.ready.isEmpty) ↔ sel.Current := by
  constructor
  · intro heq id key hid hkey
    have hmem : key ∈ sel.selectionKeys := List.mem_filterMap.mpr ⟨id, hid, hkey⟩
    rw [heq, List.mem_filter] at hmem
    intro hnone
    simp [Ops.isEmpty_iff.mpr hnone] at hmem
  · intro hcurrent
    have hready : sel.ready =
        (sel.keys.entries.filter fun e => !e.2.ready.isEmpty).map Prod.fst := by
      refine Table.eq_of_ascending h.sorted ?_ fun id => ?_
      · rw [List.pairwise_map]
        exact sel.keys.sorted.filter _
      · rw [List.mem_map]
        constructor
        · intro hid
          obtain ⟨key, hkey⟩ := Option.isSome_iff_exists.mp (h.listed hid)
          have hsome : ¬ key.ready.isEmpty = true :=
            fun he => hcurrent id key hid hkey (Ops.isEmpty_iff.mp he)
          refine ⟨(id, key), List.mem_filter.mpr ⟨Table.find?_eq_some_iff.mp hkey, ?_⟩, rfl⟩
          simpa using hsome
        · intro hid
          obtain ⟨⟨id', key⟩, he, rfl⟩ := hid
          obtain ⟨hmem, hsome⟩ := List.mem_filter.mp he
          refine h.ready (Table.find?_eq_some_iff.mpr hmem) fun hnone => ?_
          simp [Ops.isEmpty_iff.mpr hnone] at hsome
    rw [selectionKeys, hready, Table.filterMap_find?_filter, Table.values, List.filter_map]
    rfl

/-! ## Putting a key in its place, dropping keys -/

theorem Sound.insert (h : sel.Sound) {id : StreamId} {key : Key α} (hkey : key.Sound id)
    (hready : key.ready ≠ .none → id ∈ sel.ready) :
    Sound { sel with keys := sel.keys.insert id key } where
  key hfind := by
    rw [Table.find?_insert] at hfind
    split at hfind
    · rename_i hid
      rw [hid, ← Option.some.inj hfind]
      exact hkey
    · exact h.key hfind
  listed hid := (Table.contains_insert _ _ _ _).mpr (.inr (h.listed hid))
  ready hfind hne := by
    rw [Table.find?_insert] at hfind
    split at hfind
    · rename_i hid
      rw [← Option.some.inj hfind] at hne
      rw [hid]
      exact hready hne
    · exact h.ready hfind hne
  sorted := h.sorted

theorem current_insert_iff (hcurrent : sel.Current) (id : StreamId) (key : Key α) :
    Current { sel with keys := sel.keys.insert id key } ↔ (id ∈ sel.ready → key.ready ≠ .none) := by
  constructor
  · intro h hid
    refine h id key hid ?_
    rw [Table.find?_insert, if_pos rfl]
  · intro h id' key' hid hfind
    rw [Table.find?_insert] at hfind
    split at hfind
    · rename_i heq
      rw [← Option.some.inj hfind]
      exact h (heq ▸ hid)
    · exact hcurrent _ _ hid hfind

/-- A key that is replaced by one that is ready for the same. -/
theorem Sound.replace (h : sel.Sound) {id : StreamId} {key key' : Key α}
    (hfind : sel.keys.find? id = some key) (hkey' : key'.Sound id)
    (hsame : key'.ready = key.ready) :
    Sound { sel with keys := sel.keys.insert id key' } :=
  h.insert hkey' fun hne => h.ready hfind (hsame ▸ hne)

theorem current_replace (hcurrent : sel.Current) {id : StreamId} {key key' : Key α}
    (hfind : sel.keys.find? id = some key) (hsame : key'.ready = key.ready) :
    Current { sel with keys := sel.keys.insert id key' } :=
  (current_insert_iff hcurrent id key').mpr fun hid => hsame ▸ hcurrent id key hid hfind

section Drop

variable {p : StreamId → Key α → Bool} {q : StreamId → Bool}

/-- Keys are dropped together with their names in the ready list. -/
theorem Sound.filter (h : sel.Sound)
    (hpq : ∀ {id key}, sel.keys.find? id = some key → q id = p id key) :
    Sound { keys := sel.keys.filter p, ready := sel.ready.filter q } where
  key hfind := by
    rw [Table.find?_filter, Option.filter_eq_some_iff] at hfind
    exact h.key hfind.1
  listed {id} hid := by
    obtain ⟨hid, hq⟩ := List.mem_filter.mp hid
    obtain ⟨key, hkey⟩ := Option.isSome_iff_exists.mp (h.listed hid)
    have hkept : (sel.keys.filter p).find? id = some key := by
      rw [Table.find?_filter, Option.filter_eq_some_iff]
      exact ⟨hkey, hpq hkey ▸ hq⟩
    exact Option.isSome_iff_exists.mpr ⟨key, hkept⟩
  ready hfind hne := by
    rw [Table.find?_filter, Option.filter_eq_some_iff] at hfind
    exact List.mem_filter.mpr ⟨h.ready hfind.1 hne, hpq hfind.1 ▸ hfind.2⟩
  sorted := h.sorted.filter _

theorem current_filter (hcurrent : sel.Current) :
    Current { keys := sel.keys.filter p, ready := sel.ready.filter q } := by
  intro id key hid hfind
  rw [Table.find?_filter, Option.filter_eq_some_iff] at hfind
  exact hcurrent id key (List.mem_filter.mp hid).1 hfind.1

theorem find?_remove (sel : Selector α) (id id' : StreamId) :
    (sel.remove id).keys.find? id' = if id' = id then none else sel.keys.find? id' :=
  Table.find?_erase _ _ _

theorem discard_fst (sel : Selector α) (id : StreamId) (host : Host σ) (s : σ) :
    (sel.discard id host s).1 = sel.remove id := by
  unfold discard
  split <;> rfl

theorem discard_snd (sel : Selector α) (id : StreamId) (host : Host σ) (s : σ) :
    (sel.discard id host s).2 = s ∨ (sel.discard id host s).2 = host.close id s := by
  unfold discard
  split
  · exact .inl rfl
  · dsimp only
    split
    · exact .inl rfl
    · exact .inr rfl

theorem Sound.remove (h : sel.Sound) (id : StreamId) : (sel.remove id).Sound :=
  h.filter (p := fun id' _ => id' ≠ id) fun _ => rfl

theorem current_remove (h : sel.Current) (id : StreamId) : (sel.remove id).Current :=
  current_filter (p := fun id' _ => id' ≠ id) h

end Drop

/-! ## Polls -/

theorem find?_pruneClosed (sel : Selector α) (id : StreamId) :
    sel.pruneClosed.keys.find? id = (sel.keys.find? id).filter fun key => !key.stream.closed :=
  Table.find?_filter _ _ _

theorem open_of_pruned {id : StreamId} {key : Key α}
    (h : sel.pruneClosed.keys.find? id = some key) : key.stream.closed = false := by
  rw [find?_pruneClosed, Option.filter_eq_some_iff] at h
  simpa using h.2

theorem Sound.pruneClosed (h : sel.Sound) : sel.pruneClosed.Sound :=
  h.filter fun hfind => by
    rw [hfind]
    rfl

theorem current_pruneClosed (h : sel.Current) : sel.pruneClosed.Current :=
  current_filter h

/-- Whatever stream is still open is polled. -/
theorem Sound.ids_pollEntries (h : sel.Sound) :
    sel.pruneClosed.pollEntries.map (·.id) = sel.pruneClosed.keys.keys := by
  rw [pollEntries, Table.values, Table.keys, List.filterMap_map, List.map_filterMap,
    ← List.filterMap_eq_map]
  apply List.filterMap_congr
  intro e he
  have hfind := Table.find?_eq_some_iff.mpr he
  have hkey := h.pruneClosed.key hfind
  have hpolled : ¬ (e.2.stream.closed = true ∨ e.2.interest.isEmpty = true) := by
    rw [Ops.isEmpty_iff, open_of_pruned hfind]
    simpa using hkey.interested
  show Option.map _ (if _ then _ else _) = some e.1
  rw [if_neg hpolled]
  exact congrArg some hkey.keyed

/-- The selector after a poll that succeeded: the readiness of every key comes
from what was reported, and from nothing else. -/
def polled (sel : Selector α) (report : StreamId → Readiness) : Selector α :=
  sel.pruneClosed.applyReadiness (sel.pruneClosed.pollEntries.map (·.id)) report

theorem Sound.find?_polled (h : sel.Sound) (report : StreamId → Readiness) (id : StreamId) :
    (sel.polled report).keys.find? id = (sel.pruneClosed.keys.find? id).map fun key =>
      { key with ready := readyOps key.stream.kind key.interest (report id) } := by
  rw [polled, h.ids_pollEntries]
  refine (Table.find?_map _ _ id).trans ?_
  cases hfind : sel.pruneClosed.keys.find? id with
  | none => rfl
  | some key =>
    have hmem : id ∈ sel.pruneClosed.keys.keys :=
      Table.contains_iff.mp (Option.isSome_iff_exists.mpr ⟨key, hfind⟩)
    cases hempty : (report id).isEmpty with
    | false => simp [hmem]
    | true => simp [readyOps_of_isEmpty _ _ hempty]

/-- A poll that succeeded lists just the keys that it made ready. -/
theorem Sound.mem_ready_polled (h : sel.Sound) (report : StreamId → Readiness) (id : StreamId) :
    id ∈ (sel.polled report).ready ↔
      ∃ key, (sel.polled report).keys.find? id = some key ∧ key.ready ≠ .none := by
  have hready : id ∈ (sel.polled report).ready ↔ id ∈ sel.pruneClosed.keys.keys ∧
      ((sel.polled report).keys.find? id).any (fun key => !key.ready.isEmpty) = true := by
    rw [← h.ids_pollEntries]
    exact List.mem_filter
  rw [hready, Option.any_eq_true]
  constructor
  · intro ⟨_, key, hfind, hsome⟩
    refine ⟨key, hfind, fun hnone => ?_⟩
    simp [Ops.isEmpty_iff.mpr hnone] at hsome
  · intro ⟨key, hfind, hsome⟩
    have hkey := hfind
    rw [h.find?_polled, Option.map_eq_some_iff] at hkey
    obtain ⟨old, hold, _⟩ := hkey
    refine ⟨Table.contains_iff.mp (Option.isSome_iff_exists.mpr ⟨old, hold⟩), key, hfind, ?_⟩
    simpa [← Ops.isEmpty_iff] using hsome

theorem Sound.polled (h : sel.Sound) (report : StreamId → Readiness) :
    (sel.polled report).Sound where
  key hfind := by
    rw [h.find?_polled, Option.map_eq_some_iff] at hfind
    obtain ⟨old, hold, hkey⟩ := hfind
    have hsound := h.pruneClosed.key hold
    rw [← hkey]
    exact ⟨hsound.keyed, hsound.interested, hsound.accepting, readyOps_subset _ _ _⟩
  listed hid := by
    obtain ⟨key, hfind, _⟩ := (h.mem_ready_polled report _).mp hid
    exact Option.isSome_iff_exists.mpr ⟨key, hfind⟩
  ready hfind hne := (h.mem_ready_polled report _).mpr ⟨_, hfind, hne⟩
  sorted := by
    rw [Selector.polled, h.ids_pollEntries]
    refine List.Pairwise.filter _ ?_
    rw [Table.keys, List.pairwise_map]
    exact sel.pruneClosed.keys.sorted

theorem Sound.current_polled (h : sel.Sound) (report : StreamId → Readiness) :
    (sel.polled report).Current := by
  intro id key hid hfind
  obtain ⟨key', hfind', hne⟩ := (h.mem_ready_polled report id).mp hid
  rw [hfind] at hfind'
  rw [Option.some.inj hfind']
  exact hne

theorem Sound.ready_eq_nil (h : sel.Sound) (hkeys : sel.keys.keys = []) : sel.ready = [] := by
  rw [List.eq_nil_iff_forall_not_mem]
  intro id hid
  have hmem := Table.contains_iff.mp (h.listed hid)
  rw [hkeys] at hmem
  cases hmem

/-- Without a stream to poll there is nothing that a poll could make ready. -/
theorem Sound.polled_of_isEmpty (h : sel.Sound) (report : StreamId → Readiness)
    (hempty : sel.pruneClosed.pollEntries.isEmpty = true) :
    sel.polled report = sel.pruneClosed ∧ sel.pruneClosed.ready = [] := by
  have hkeys : sel.pruneClosed.keys.keys = [] := by
    rw [← h.ids_pollEntries, List.isEmpty_iff.mp hempty]
    rfl
  have hready := h.pruneClosed.ready_eq_nil hkeys
  refine ⟨?_, hready⟩
  have hnone : ∀ id, sel.pruneClosed.keys.find? id = none := by
    intro id
    rw [Table.find?_eq_none_iff, hkeys]
    exact List.not_mem_nil
  have htable : (sel.polled report).keys = sel.pruneClosed.keys := by
    apply Table.ext_find?
    intro id
    rw [h.find?_polled, hnone]
    rfl
  apply eq_of_parts htable
  rw [hready]
  exact (h.polled report).ready_eq_nil (htable ▸ hkeys)

theorem Sound.open_of_polled (h : sel.Sound) {report : StreamId → Readiness} {id : StreamId}
    {key : Key α} (hfind : (sel.polled report).keys.find? id = some key) :
    key.stream.closed = false := by
  rw [h.find?_polled, Option.map_eq_some_iff] at hfind
  obtain ⟨old, hold, hkey⟩ := hfind
  have hopen := open_of_pruned hold
  rwa [← hkey]

theorem Sound.accepting_of_polled (h : sel.Sound) {report : StreamId → Readiness} {id : StreamId}
    {key : Key α} (hfind : (sel.polled report).keys.find? id = some key)
    (haccept : key.interest.accept = true) : key.ready = .none ∨ key.ready = .accepting := by
  have hlistener := ((h.polled report).key hfind).accepting haccept
  rw [h.find?_polled, Option.map_eq_some_iff] at hfind
  obtain ⟨old, _, hkey⟩ := hfind
  rw [← hkey] at haccept hlistener ⊢
  have hready := readyOps_of_listener haccept (report id)
  rwa [← hlistener] at hready

variable {host : Host σ} {timeout : Option Duration} {s s' : σ}

/-- What a poll reports is what a selector has afterwards, and it counts the
streams that are ready.  That includes the poll that is left out because there
is nothing to poll. -/
theorem Sound.select_of_reported (h : sel.Sound) {report : StreamId → Readiness}
    (hpoll : host.poll sel.pruneClosed.pollEntries timeout s = (.reported report, s')) :
    (sel.select timeout host s).1 = .ok (sel.polled report).ready.length ∧
      (sel.select timeout host s).2.1 = sel.polled report := by
  unfold select
  dsimp only
  split
  · rename_i hempty
    obtain ⟨hpolled, hready⟩ := h.polled_of_isEmpty report hempty
    rw [hpolled, hready]
    exact ⟨rfl, rfl⟩
  · rw [hpoll]
    exact ⟨rfl, rfl⟩

/-- A select either takes over what a poll reported or just drops the closed
streams. -/
theorem select_cases (sel : Selector α) (timeout : Option Duration) (host : Host σ) (s : σ) :
    (∃ report, (sel.select timeout host s).2.1 = sel.polled report) ∨
      (sel.select timeout host s).2.1 = sel.pruneClosed := by
  unfold select
  dsimp only
  split
  · exact .inr rfl
  · split
    · exact .inr rfl
    · exact .inr rfl
    · exact .inl ⟨_, rfl⟩

/-- What a select leaves of a key: the stream and its attachment. -/
def fixture (key : Key α) : Stream × Option α :=
  (key.stream, key.attachment)

/-- A select changes nothing but readiness, if all streams are open. -/
theorem map_fixture_select
    (hopen : ∀ {id key}, sel.keys.find? id = some key → key.stream.closed = false)
    (timeout : Option Duration) (host : Host σ) (s : σ) (id : StreamId) :
    ((sel.select timeout host s).2.1.keys.find? id).map fixture =
      (sel.keys.find? id).map fixture := by
  have hpruned : sel.pruneClosed.keys.find? id = sel.keys.find? id := by
    rw [find?_pruneClosed]
    cases hkey : sel.keys.find? id with
    | none => rfl
    | some key => simp [hopen hkey]
  rcases select_cases sel timeout host s with ⟨report, heq⟩ | heq
  · rw [heq, ← hpruned]
    refine (congrArg (Option.map fixture) (Table.find?_map _ _ id)).trans ?_
    rw [Option.map_map]
    rfl
  · rw [heq, hpruned]

/-- A select makes at most one call: it polls the open streams. -/
theorem state_select (sel : Selector α) (timeout : Option Duration) (host : Host σ) (s : σ) :
    (sel.select timeout host s).2.2 = s ∨
      (sel.select timeout host s).2.2 = (host.poll sel.pruneClosed.pollEntries timeout s).2 := by
  unfold select
  dsimp only
  split
  · exact .inl rfl
  · right
    split <;> rename_i hpoll <;> rw [hpoll]

/-- A select fails only if its poll of the open streams does. -/
theorem failed_of_select {timeout : Option Duration} {host : Host σ} {s : σ} {e : Error}
    (h : (sel.select timeout host s).1 = .error e) :
    ∃ failure, (host.poll sel.pruneClosed.pollEntries timeout s).1 = .failed failure := by
  revert h
  unfold select
  dsimp only
  split
  · exact nofun
  · split
    · exact nofun
    · rename_i failure _ hpoll
      exact fun _ => ⟨failure, by rw [hpoll]⟩
    · exact nofun

/-! ## Runs -/

/-- What the owner of a selector does with it and with the streams in it. -/
inductive Operation (α σ : Type) where
  | register (st : Stream) (ops : Ops) (attachment : Option α)
  | reregister (id : StreamId) (ops : Ops)
  | unregister (id : StreamId) (ops : Ops)
  | remove (id : StreamId)
  | attach (id : StreamId) (attachment : α)
  | close (id : StreamId)
  | select (host : Host σ) (timeout : Option Duration) (s : σ)

/-- The selector after something that may fail. -/
def settle (sel : Selector α) : Except Error (Selector α) → Except Error Unit × Selector α
  | .ok sel' => (.ok (), sel')
  | .error e => (.error e, sel)

/-- The outcome of an operation, and the selector after it. -/
def perform (sel : Selector α) : Operation α σ → Except Error Unit × Selector α
  | .register st ops attachment => sel.settle (sel.register st ops attachment)
  | .reregister id ops => sel.settle (sel.reregister id ops)
  | .unregister id ops => sel.settle ((sel.unregister id ops).map (·.1))
  | .remove id => (.ok (), sel.remove id)
  | .attach id attachment =>
    (.ok (), sel.modify id fun key => { key with attachment := some attachment })
  | .close id => (.ok (), sel.closeStream id)
  | .select host timeout s =>
    let (result, sel, _) := sel.select timeout host s
    (result.map fun _ => (), sel)

/-- A selector that was created empty, after some operations. -/
def run (deeds : List (Operation α σ)) : Selector α :=
  deeds.foldl (fun sel op => (sel.perform op).2) empty

theorem run_concat (past : List (Operation α σ)) (op : Operation α σ) :
    run (past ++ [op]) = ((run past).perform op).2 := by
  rw [run, List.foldl_append]
  rfl

section Operations

variable {st : Stream} {ops : Ops} {id : StreamId}

theorem register_cases (sel : Selector α) (st : Stream) (ops : Ops) (attachment : Option α) :
    (¬ Unfit st ops ∧ sel.settle (sel.register st ops attachment) =
      (.ok (), { sel with
        keys := sel.keys.insert st.id { stream := st, interest := ops, attachment } })) ∨
      (Unfit st ops ∧ sel.settle (sel.register st ops attachment) =
        (.error (.invalidOps ops.bits), sel)) := by
  unfold register
  rcases validate_cases st ops with ⟨hfit, hvalid⟩ | ⟨hunfit, hinvalid⟩
  · rw [hvalid]
    exact .inl ⟨hfit, rfl⟩
  · rw [hinvalid]
    exact .inr ⟨hunfit, rfl⟩

theorem reregister_cases (sel : Selector α) (id : StreamId) (ops : Ops) :
    (∃ key, sel.keys.find? id = some key ∧ ¬ Unfit key.stream ops ∧
      sel.settle (sel.reregister id ops) =
        (.ok (), { sel with
          keys := sel.keys.insert id { key with interest := key.interest ∪ ops } })) ∨
      ((∀ key, sel.keys.find? id = some key → Unfit key.stream ops) ∧
        ∃ e, sel.settle (sel.reregister id ops) = (.error e, sel)) := by
  unfold reregister
  cases hfind : sel.keys.find? id with
  | none => exact .inr ⟨nofun, _, rfl⟩
  | some key =>
    dsimp only
    rcases validate_cases key.stream ops with ⟨hfit, hvalid⟩ | ⟨hunfit, hinvalid⟩
    · rw [hvalid]
      exact .inl ⟨key, rfl, hfit, rfl⟩
    · rw [hinvalid]
      refine .inr ⟨fun key' hkey' => ?_, _, rfl⟩
      rw [← Option.some.inj hkey']
      exact hunfit

theorem unregister_cases (sel : Selector α) (id : StreamId) (ops : Ops) :
    (sel.keys.find? id = none ∧
      sel.settle ((sel.unregister id ops).map (·.1)) = (.error (.unknownStream id), sel)) ∨
    (∃ key, sel.keys.find? id = some key ∧ key.interest \ ops = .none ∧
      sel.settle ((sel.unregister id ops).map (·.1)) = (.ok (), sel.remove id)) ∨
    (∃ key, sel.keys.find? id = some key ∧ key.interest \ ops ≠ .none ∧
      sel.settle ((sel.unregister id ops).map (·.1)) = (.ok (), { sel with
        keys := sel.keys.insert id
          { key with
            interest := key.interest \ ops, ready := key.ready ∩ (key.interest \ ops) } })) := by
  unfold unregister
  cases hfind : sel.keys.find? id with
  | none => exact .inl ⟨rfl, rfl⟩
  | some key =>
    dsimp only
    split
    · rename_i hempty
      exact .inr (.inl ⟨key, rfl, Ops.isEmpty_iff.mp hempty, rfl⟩)
    · rename_i hleft
      exact .inr (.inr ⟨key, rfl, fun hnone => hleft (Ops.isEmpty_iff.mpr hnone), rfl⟩)

/-- Attaching something to a key or closing its stream. -/
theorem modify_cases (sel : Selector α) (id : StreamId) (f : Key α → Key α) :
    sel.modify id f = sel ∨ ∃ key, sel.keys.find? id = some key ∧
      sel.modify id f = { sel with keys := sel.keys.insert id (f key) } := by
  unfold modify
  cases hfind : sel.keys.find? id with
  | none =>
    rw [Table.modify_of_find?_eq_none f hfind]
    exact .inl rfl
  | some key =>
    rw [Table.modify_of_find?_eq_some f hfind]
    exact .inr ⟨key, rfl, rfl⟩

end Operations

theorem Sound.modify (h : sel.Sound) (id : StreamId) {f : Key α → Key α}
    (hsound : ∀ key : Key α, key.Sound id → (f key).Sound id)
    (hready : ∀ key, (f key).ready = key.ready) : (sel.modify id f).Sound := by
  rcases modify_cases sel id f with hsame | ⟨key, hfind, heq⟩
  · rw [hsame]
    exact h
  · rw [heq]
    exact h.replace hfind (hsound key (h.key hfind)) (hready key)

theorem current_modify (h : sel.Current) (id : StreamId) {f : Key α → Key α}
    (hready : ∀ key, (f key).ready = key.ready) : (sel.modify id f).Current := by
  rcases modify_cases sel id f with hsame | ⟨key, hfind, heq⟩
  · rw [hsame]
    exact h
  · rw [heq]
    exact current_replace h hfind (hready key)

/-- Every operation keeps a selector sound. -/
theorem Sound.perform (h : sel.Sound) (op : Operation α σ) : (sel.perform op).2.Sound := by
  cases op with
  | register st ops attachment =>
    show (sel.settle _).2.Sound
    rcases register_cases sel st ops attachment with ⟨hfit, heq⟩ | ⟨_, heq⟩
    · rw [heq]
      exact h.insert (Key.Sound.registered hfit attachment) (absurd rfl)
    · rw [heq]
      exact h
  | reregister id ops =>
    show (sel.settle _).2.Sound
    rcases reregister_cases sel id ops with ⟨key, hfind, hfit, heq⟩ | ⟨_, e, heq⟩
    · rw [heq]
      exact h.replace hfind ((h.key hfind).reregistered hfit) rfl
    · rw [heq]
      exact h
  | unregister id ops =>
    show (sel.settle _).2.Sound
    rcases unregister_cases sel id ops with
      ⟨_, heq⟩ | ⟨key, _, _, heq⟩ | ⟨key, hfind, hleft, heq⟩
    · rw [heq]
      exact h
    · rw [heq]
      exact h.remove id
    · rw [heq]
      refine h.insert ((h.key hfind).unregistered hleft) fun hne => h.ready hfind fun hnone => ?_
      apply hne
      dsimp only
      rw [hnone]
      rfl
  | remove id => exact h.remove id
  | attach id attachment =>
    exact h.modify id (fun _ hkey => ⟨hkey.keyed, hkey.interested, hkey.accepting, hkey.ready⟩)
      fun _ => rfl
  | close id =>
    exact h.modify id (fun _ hkey => ⟨hkey.keyed, hkey.interested, hkey.accepting, hkey.ready⟩)
      fun _ => rfl
  | select host timeout s =>
    show (sel.select timeout host s).2.1.Sound
    rcases select_cases sel timeout host s with ⟨report, heq⟩ | heq
    · rw [heq]
      exact h.polled report
    · rw [heq]
      exact h.pruneClosed

theorem sound_run (deeds : List (Operation α σ)) : (run deeds).Sound := by
  induction deeds using List.reverseRecOn with
  | nil => exact sound_empty
  | append_singleton past op ih =>
    rw [run_concat]
    exact ih.perform op

/-- Whatever is done with a selector, and whatever its polls say: every key is
of interest for something, of interest for accepting only if its stream is a
listener, and ready only for what it is of interest for.  The ready list names
streams that are registered, each once.  No select leaves the key of a closed
stream, and after a poll that succeeded a listener that is to accept is ready
to accept or not at all.  To register a stream, or to add interest in it, fails
exactly if the stream cannot have the interest or is not known, and that
changes nothing. -/
theorem keys_and_ready_list (deeds : List (Operation α σ)) :
    let sel : Selector α := run deeds
    (∀ id key, sel.keys.find? id = some key →
      key.interest ≠ .none ∧ (key.interest.accept = true → key.stream.kind = .listener) ∧
        key.ready ⊆ key.interest) ∧
    (∀ id ∈ sel.ready, sel.keys.contains id = true) ∧ sel.ready.Nodup ∧
    (∀ (host : Host σ) (timeout : Option Duration) (s : σ),
      let after := (sel.perform (.select host timeout s)).2
      (∀ id key, after.keys.find? id = some key → key.stream.closed = false) ∧
      ∀ report s', host.poll sel.pruneClosed.pollEntries timeout s = (.reported report, s') →
        ∀ id key, after.keys.find? id = some key → key.interest.accept = true →
          key.ready = .none ∨ key.ready = .accepting) ∧
    (∀ st ops attachment,
      let op : Operation α σ := .register st ops attachment
      (¬ Unfit st ops ∧ (sel.perform op).1 = .ok ()) ∨
        (Unfit st ops ∧ ∃ e, sel.perform op = (.error e, sel))) ∧
    ∀ id ops,
      let op : Operation α σ := .reregister id ops
      (∃ key, sel.keys.find? id = some key ∧ ¬ Unfit key.stream ops ∧
        (sel.perform op).1 = .ok ()) ∨
      ((∀ key, sel.keys.find? id = some key → Unfit key.stream ops) ∧
        ∃ e, sel.perform op = (.error e, sel)) := by
  intro sel
  have h : sel.Sound := sound_run deeds
  refine ⟨fun id key hfind => ?_, fun id => h.listed, Table.nodup_of_ascending h.sorted,
    fun host timeout s => ⟨fun id key hfind => ?_, fun report s' hpoll id key hfind => ?_⟩,
    fun st ops attachment => ?_, fun id ops => ?_⟩
  · have hkey := h.key hfind
    exact ⟨hkey.interested, hkey.accepting, hkey.ready⟩
  · change (sel.select timeout host s).2.1.keys.find? id = _ at hfind
    rcases select_cases sel timeout host s with ⟨report, heq⟩ | heq
    · rw [heq] at hfind
      exact h.open_of_polled hfind
    · rw [heq] at hfind
      exact open_of_pruned hfind
  · change (sel.select timeout host s).2.1.keys.find? id = _ at hfind
    rw [(h.select_of_reported hpoll).2] at hfind
    exact h.accepting_of_polled hfind
  · exact (register_cases sel st ops attachment).imp
      (fun ⟨hfit, heq⟩ => ⟨hfit, congrArg Prod.fst heq⟩) fun ⟨hunfit, heq⟩ => ⟨hunfit, _, heq⟩
  · exact (reregister_cases sel id ops).imp_left
      fun ⟨key, hfind, hfit, heq⟩ => ⟨key, hfind, hfit, congrArg Prod.fst heq⟩

/-! ## The two notes of readiness -/

/-- What leaves a stream in the ready list that is ready for nothing: all that
it is ready for is withdrawn and other interest is left, or, if it could be
given to a selector that has it, it is registered anew. -/
def Strands (sel : Selector α) : Operation α σ → Prop
  | .register st ops _ => ¬ Unfit st ops ∧ st.id ∈ sel.ready
  | .unregister id ops => id ∈ sel.ready ∧
    ∃ key, sel.keys.find? id = some key ∧ key.interest \ ops ≠ .none ∧ key.ready ⊆ ops
  | _ => False

/-- After any operation whatever is listed is ready, unless it was stranded. -/
theorem Sound.current_perform_iff (h : sel.Sound) (hcurrent : sel.Current)
    (op : Operation α σ) : (sel.perform op).2.Current ↔ ¬ sel.Strands op := by
  cases op with
  | register st ops attachment =>
    show (sel.settle _).2.Current ↔ ¬ (¬ Unfit st ops ∧ st.id ∈ sel.ready)
    rcases register_cases sel st ops attachment with ⟨hfit, heq⟩ | ⟨hunfit, heq⟩
    · rw [heq, current_insert_iff hcurrent]
      exact ⟨fun hready hstrands => hready hstrands.2 rfl,
        fun hstrands hid => absurd ⟨hfit, hid⟩ hstrands⟩
    · rw [heq]
      exact iff_of_true hcurrent fun hstrands => hstrands.1 hunfit
  | reregister id ops =>
    show (sel.settle _).2.Current ↔ ¬ False
    refine iff_of_true ?_ nofun
    rcases reregister_cases sel id ops with ⟨key, hfind, _, heq⟩ | ⟨_, e, heq⟩
    · rw [heq]
      exact current_replace hcurrent hfind rfl
    · rw [heq]
      exact hcurrent
  | unregister id ops =>
    show (sel.settle _).2.Current ↔ ¬ (id ∈ sel.ready ∧ ∃ key, sel.keys.find? id = some key ∧ _)
    rcases unregister_cases sel id ops with
      ⟨hfind, heq⟩ | ⟨key, hfind, hnone, heq⟩ | ⟨key, hfind, hleft, heq⟩
    · rw [heq, hfind]
      exact iff_of_true hcurrent fun ⟨_, _, hkey, _⟩ => nomatch hkey
    · rw [heq, hfind]
      refine iff_of_true (current_remove hcurrent id) fun ⟨_, key', hkey', hleft, _⟩ => ?_
      rw [← Option.some.inj hkey'] at hleft
      exact hleft hnone
    · rw [heq, current_insert_iff hcurrent]
      have hready := Ops.inter_sdiff_eq_none_iff (h.key hfind).ready ops
      constructor
      · intro hinsert ⟨hid, key', hkey', _, hsubset⟩
        rw [hfind] at hkey'
        rw [← Option.some.inj hkey'] at hsubset
        exact hinsert hid (hready.mpr hsubset)
      · intro hstrands hid hnone
        exact hstrands ⟨hid, key, hfind, hleft, hready.mp hnone⟩
  | remove id => exact iff_of_true (current_remove hcurrent id) nofun
  | attach id attachment => exact iff_of_true (current_modify hcurrent id fun _ => rfl) nofun
  | close id => exact iff_of_true (current_modify hcurrent id fun _ => rfl) nofun
  | select host timeout s =>
    refine iff_of_true ?_ nofun
    show (sel.select timeout host s).2.1.Current
    rcases select_cases sel timeout host s with ⟨report, heq⟩ | heq
    · rw [heq]
      exact h.current_polled report
    · rw [heq]
      exact current_pruneClosed hcurrent

/-- Whatever is done with a selector, all keys that are ready are among the
keys that it lists as ready.  They are just those, all the time, exactly if no
operation strands a stream. -/
theorem listed_are_ready_iff (deeds : List (Operation α σ)) :
    (∀ past, past <+: deeds → ∀ id key, (run past : Selector α).keys.find? id = some key →
      key.ready ≠ .none → key ∈ (run past).selectionKeys) ∧
    ((∀ past, past <+: deeds → (run past : Selector α).selectionKeys =
        (run past).keys.values.filter fun key => !key.ready.isEmpty) ↔
      ∀ past op, past ++ [op] <+: deeds → ¬ (run past : Selector α).Strands op) := by
  refine ⟨fun past _ id key hfind hne =>
    List.mem_filterMap.mpr ⟨id, (sound_run past).ready hfind hne, hfind⟩, ?_⟩
  constructor
  · intro hagree past op hpast
    have hbefore := hagree past ((List.prefix_append past [op]).trans hpast)
    have hafter := hagree (past ++ [op]) hpast
    rw [(sound_run _).selectionKeys_eq_iff] at hbefore hafter
    rw [run_concat] at hafter
    exact ((sound_run past).current_perform_iff hbefore op).mp hafter
  · intro hspared past
    rw [(sound_run past).selectionKeys_eq_iff]
    induction past using List.reverseRecOn with
    | nil => exact fun _ => current_empty
    | append_singleton past op ih =>
      intro hpast
      have hbefore := ih ((List.prefix_append past [op]).trans hpast)
      rw [run_concat]
      exact ((sound_run past).current_perform_iff hbefore op).mpr (hspared past op hpast)

/-- A pipe is polled for reading and writing and can be read.  After interest
in reading is withdrawn it is listed as ready and is ready for nothing. -/
theorem withdrawn_stays_listed :
    let pipe : Stream := { id := ⟨1⟩, kind := .pipe }
    let readable : Sim.World := { script := some [.ready [(⟨1⟩, { readable := true })]] }
    let sel : Selector Unit := run
      [.register pipe (.reading ∪ .writing) none,
        .select Sim.World.host (some .zero) readable, .unregister ⟨1⟩ .reading]
    sel.selectionKeys = [{ stream := pipe, interest := .writing, ready := .none }] ∧
      sel.keys.values.filter (fun key => !key.ready.isEmpty) = [] := by
  decide

end Selector

end Supervisor.Poll
