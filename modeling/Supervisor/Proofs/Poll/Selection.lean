import Supervisor.Proofs.Poll.Selector

/-!
# What a select counts and what it lists

A select returns how many streams it found ready, and afterwards the selector
lists keys as selected.  Both should speak of the poll that was just made and
of no other.

* `Key.Met` says in words when a report meets the interest of a key, and
  `readyOps_ne_none_iff` that the operations a key is made ready for say the
  same.
* `Selector.madeReady` is what a poll makes of the keys by itself, as if no key
  had been ready before.
* `Sound.selectionKeys_polled`: after a poll that reported something these are
  the keys that are listed.
* `counted_are_listed_iff`: the count is always theirs, and so is the list,
  but for one way out.  A poll that was interrupted counts as zero and leaves
  the list of an earlier one.
-/

namespace Supervisor.Poll

variable {α σ : Type}

/-! ## Interest that is met -/

/-- What was reported of a stream is what its key is interested in.  Whoever
waits for connections is told of input only. -/
def Key.Met (key : Key α) (r : Readiness) : Prop :=
  if key.interest.accept ∧ key.stream.kind = .listener then r.readable ∨ r.hangup ∨ r.error
  else (key.interest.read ∧ (r.readable ∨ r.hangup ∨ r.error)) ∨
    (key.interest.write ∧ (r.writable ∨ r.error))

instance (key : Key α) (r : Readiness) : Decidable (key.Met r) := by
  unfold Key.Met
  infer_instance

/-- A key is made ready for something exactly if its interest is met. -/
theorem readyOps_ne_none_iff (key : Key α) (r : Readiness) :
    readyOps key.stream.kind key.interest r ≠ .none ↔ key.Met r := by
  unfold readyOps Key.Met
  split
  · cases hinput : r.readable || r.hangup || r.error with
    | true => simpa [Ops.accepting, Ops.none, or_assoc] using hinput
    | false => simpa [and_assoc] using hinput
  · rw [Ne, Ops.eq_iff]
    show ¬ (((r.readable || r.hangup || r.error) && key.interest.read) = false ∧
      ((r.writable || r.error) && key.interest.write) = false ∧
        (false && key.interest.accept) = false) ↔ _
    grind

namespace Selector

variable {sel : Selector α}

/-! ## What a poll makes ready -/

/-- The keys that a poll makes ready, each with what for.  Nothing comes from
what they were ready for before, and a poll that reports nothing makes none
ready. -/
def madeReady (sel : Selector α) : PollResult → List (Key α)
  | .reported report =>
    (sel.keys.values.filter fun key => key.Met (report key.stream.id)).map fun key =>
      { key with ready := readyOps key.stream.kind key.interest (report key.stream.id) }
  | .interrupted => []
  | .failed _ => []

theorem Sound.keys_polled (h : sel.Sound) (report : StreamId → Readiness) :
    (sel.polled report).keys = sel.pruneClosed.keys.map fun id key =>
      { key with ready := readyOps key.stream.kind key.interest (report id) } := by
  apply Table.ext_find?
  intro id
  rw [h.find?_polled, Table.find?_map]

/-- After a poll the selector lists what that poll made ready. -/
theorem Sound.selectionKeys_polled (h : sel.Sound) (report : StreamId → Readiness) :
    (sel.polled report).selectionKeys = sel.pruneClosed.madeReady (.reported report) := by
  have hvalues : (sel.polled report).keys.values = sel.pruneClosed.keys.values.map fun key =>
      { key with ready := readyOps key.stream.kind key.interest (report key.stream.id) } := by
    rw [h.keys_polled]
    show (sel.pruneClosed.keys.entries.map _).map _ = (sel.pruneClosed.keys.entries.map _).map _
    rw [List.map_map, List.map_map]
    apply List.map_congr_left
    intro e he
    have hkeyed := (h.pruneClosed.key (Table.find?_eq_some_iff.mpr he)).keyed
    simp [hkeyed]
  rw [(h.polled report).selectionKeys_eq_iff.mpr (h.current_polled report), hvalues,
    List.filter_map]
  apply congrArg (List.map _)
  apply List.filter_congr
  intro key _
  rw [Bool.eq_iff_iff, decide_eq_true_iff, ← readyOps_ne_none_iff]
  simp [← Ops.isEmpty_iff]

/-- Every stream in the ready list is one of the keys that are listed. -/
theorem Sound.length_selectionKeys (h : sel.Sound) :
    sel.selectionKeys.length = sel.ready.length := by
  apply List.filterMap_length_eq_length.mpr
  exact fun id hid => h.listed hid

/-- Exactly an empty ready list lists no key. -/
theorem Sound.selectionKeys_eq_nil_iff (h : sel.Sound) :
    sel.selectionKeys = [] ↔ sel.ready = [] := by
  rw [← List.length_eq_zero_iff, h.length_selectionKeys, List.length_eq_zero_iff]

/-! ## Counting and listing -/

section Select

variable {host : Host σ} {timeout : Option Duration} {s s' : σ}

/-- A poll that was interrupted, or left out, counts as zero and leaves what
was listed. -/
theorem select_of_interrupted
    (hpoll : host.poll sel.pruneClosed.pollEntries timeout s = (.interrupted, s')) :
    (sel.select timeout host s).1 = .ok 0 ∧
      (sel.select timeout host s).2.1 = sel.pruneClosed := by
  unfold select
  dsimp only
  split
  · exact ⟨rfl, rfl⟩
  · rw [hpoll]
    exact ⟨rfl, rfl⟩

/-- A poll that failed fails the select, unless it was left out because there
is nothing to poll. -/
theorem Sound.select_of_failed (h : sel.Sound) {failure : Failure}
    (hpoll : host.poll sel.pruneClosed.pollEntries timeout s = (.failed failure, s'))
    {n : Nat} (hok : (sel.select timeout host s).1 = .ok n) :
    n = 0 ∧ (sel.select timeout host s).2.1.selectionKeys = [] := by
  revert hok
  unfold select
  dsimp only
  split
  · rename_i hempty
    intro hok
    have hready := (h.polled_of_isEmpty (fun _ => {}) hempty).2
    exact ⟨(Except.ok.inj hok).symm, h.pruneClosed.selectionKeys_eq_nil_iff.mpr hready⟩
  · rw [hpoll]
    exact nofun

end Select

/-- Whatever was done with a selector before, and whatever a poll finds: a
select that succeeds counts the keys whose streams that very poll reported
ready for what they are of interest for.  These are also the keys that the
selector lists afterwards, ready for just that, except exactly if the poll was
interrupted while an earlier one left open streams in the ready list.  Then
everything stays as that one left it, and the count says zero. -/
theorem counted_are_listed_iff (deeds : List (Operation α σ)) (host : Host σ)
    (timeout : Option Duration) (s : σ) :
    let before : Selector α := (run deeds).pruneClosed
    let found := (host.poll before.pollEntries timeout s).1
    let count := ((run deeds).select timeout host s).1
    let after := ((run deeds).select timeout host s).2.1
    (∀ n, count = .ok n → n = (before.madeReady found).length) ∧
    ((∀ n, count = .ok n → after.selectionKeys = before.madeReady found) ↔
      ¬ (found = .interrupted ∧ before.ready ≠ [])) ∧
    (found = .interrupted → count = .ok 0 ∧ after = before) := by
  intro before found count after
  have h : (run deeds : Selector α).Sound := sound_run deeds
  cases hpoll : host.poll before.pollEntries timeout s with
  | mk outcome s' =>
    have hfound : found = outcome := congrArg Prod.fst hpoll
    rw [hfound]
    cases outcome with
    | reported report =>
      obtain ⟨hcount, hafter⟩ := h.select_of_reported hpoll
      have hlisted : after.selectionKeys = before.madeReady (.reported report) := by
        show ((run deeds).select timeout host s).2.1.selectionKeys = _
        rw [hafter]
        exact h.selectionKeys_polled report
      refine ⟨fun n hn => ?_, iff_of_true (fun _ _ => hlisted) nofun, nofun⟩
      rw [← hlisted, ← Except.ok.inj (hcount.symm.trans hn)]
      show _ = ((run deeds).select timeout host s).2.1.selectionKeys.length
      rw [hafter, (h.polled report).length_selectionKeys]
    | interrupted =>
      obtain ⟨hcount, hafter⟩ := select_of_interrupted hpoll
      refine ⟨fun n hn => (Except.ok.inj (hcount.symm.trans hn)).symm, ?_,
        fun _ => ⟨hcount, hafter⟩⟩
      have hkeys : after.selectionKeys = [] ↔ before.ready = [] := by
        show ((run deeds).select timeout host s).2.1.selectionKeys = [] ↔ _
        rw [hafter]
        exact h.pruneClosed.selectionKeys_eq_nil_iff
      constructor
      · intro hlisted hstale
        exact hstale.2 (hkeys.mp (hlisted 0 hcount))
      · intro hfresh n _
        apply hkeys.mpr
        by_contra hne
        exact hfresh ⟨rfl, hne⟩
    | failed failure =>
      exact ⟨fun n hn => (h.select_of_failed hpoll hn).1,
        iff_of_true (fun n hn => (h.select_of_failed hpoll hn).2) nofun, nofun⟩

/-- A pipe is found readable, and the next poll is interrupted.  That one
counts zero keys, reported none, and the pipe is still listed. -/
theorem interrupted_select_stays_listed :
    let pipe : Stream := { id := ⟨1⟩, kind := .pipe }
    let readable : Sim.World := { script := some [.ready [(⟨1⟩, { readable := true })]] }
    let interrupted : Sim.World := { script := some [.interrupted] }
    let sel : Selector Unit := run
      [.register pipe .reading none, .select Sim.World.host (some .zero) readable]
    let after := sel.select (some .zero) Sim.World.host interrupted
    after.1 = .ok 0 ∧
      sel.pruneClosed.madeReady
        (Sim.World.host.poll sel.pruneClosed.pollEntries (some .zero) interrupted).1 = [] ∧
      after.2.1.selectionKeys = [{ stream := pipe, interest := .reading, ready := .reading }] := by
  decide

end Selector

end Supervisor.Poll
