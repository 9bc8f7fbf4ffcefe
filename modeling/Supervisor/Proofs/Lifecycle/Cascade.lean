import Supervisor.Lifecycle.Bus

/-!
# What raising an event does

`Bus.raise` is a loop over a queue that its own turns fill.  This module says
what that loop does without looking at the loop.

* A `Turn` is the dispatch of one event: the event and the reactions of the
  handlers that ran on it.  `RunsChain` is the rule of a chain: its handlers
  run in order until one fails or stops the propagation.
* `Cascades` is the rule of the queue: a turn takes the event in front and
  puts what its handlers emitted at the back.  It has no limit.  A cascade is
  determined by its start and the number of its turns (`Cascades.unique`), so
  a list of turns that it admits is what happened.
* As long as no handler fails, the events dispatched and those left in the
  queue are the events queued at first and then all emissions, turn by turn
  (`Cascades.queue_append_emitted`).  This is the breadth-first order.
* `cascade_ends` follows the loop and finds the cascade that it performs and
  how it ends: all is dispatched, a handler fails, or the room is used up.

Listeners are functions over a state that the cascade threads through them, so
whatever they keep there is part of what is proved.
-/

namespace Supervisor.Lifecycle

/-- The dispatch of one event. -/
structure Turn where
  event : Event
  /-- The reactions of the handlers that ran, in their order. -/
  reactions : List Reaction

namespace Turn

/-- What the handlers emitted: in handler order, then in emission order. -/
def emitted (t : Turn) : List Event :=
  t.reactions.flatMap (·.emitted)

/-- No handler that ran failed. -/
def Succeeds (t : Turn) : Prop :=
  ∀ r ∈ t.reactions, r.failure = none

/-- The failure of the handler that failed, if one did. -/
def failure? (t : Turn) : Option Error :=
  t.reactions.findSome? (·.failure)

theorem succeeds_iff {t : Turn} : t.Succeeds ↔ t.failure? = none := by
  unfold Succeeds failure?
  rw [List.findSome?_eq_none_iff]

/-- What a dispatch reports: the emissions, or the failure. -/
def outcome (t : Turn) : Except Error (List Event) :=
  match t.failure? with
  | some error => .error error
  | none => .ok t.emitted

theorem outcome_cons {r : Reaction} (e : Event) (reactions : List Reaction)
    (h : r.failure = none) :
    (mk e (r :: reactions)).outcome = (mk e reactions).outcome.map (r.emitted ++ ·) := by
  have hfailure : (mk e (r :: reactions)).failure? = (mk e reactions).failure? := by
    simp [failure?, h]
  unfold outcome
  rw [hfailure]
  cases (mk e reactions).failure? <;> rfl

theorem outcome_eq_ok {t : Turn} {emitted : List Event} (h : t.outcome = .ok emitted) :
    t.Succeeds ∧ emitted = t.emitted := by
  unfold outcome at h
  split at h
  · cases h
  · rename_i hnone
    exact ⟨succeeds_iff.mpr hnone, (Except.ok.inj h).symm⟩

theorem outcome_eq_error {t : Turn} {error : Error} (h : t.outcome = .error error) :
    t.failure? = some error := by
  unfold outcome at h
  split at h
  · rename_i hsome
    rw [hsome, Except.error.inj h]
  · cases h

end Turn

namespace Bus

variable {σ : Type} {b : Bus σ}

/-! ## The rules -/

/-- A handler reacts to an event with `r`. -/
def Reacts (b : Bus σ) (e : Event) (h : Handler) (s : σ) (r : Reaction) (s' : σ) : Prop :=
  ∃ l, b.listeners[h.listener]? = some l ∧ l e s = (r, s')

/-- Handlers of a chain run on an event, one after the other, until one fails
or stops the propagation. -/
inductive RunsChain (b : Bus σ) (e : Event) : List Handler → σ → List Reaction → σ → Prop where
  | done (s : σ) : RunsChain b e [] s [] s
  | absent {h : Handler} {rest : List Handler} {s s' : σ} {reactions : List Reaction} :
      b.listeners[h.listener]? = none → RunsChain b e rest s reactions s' →
      RunsChain b e (h :: rest) s reactions s'
  | last {h : Handler} {rest : List Handler} {s s' : σ} {r : Reaction} :
      b.Reacts e h s r s' → r.failure ≠ none ∨ r.stop = true →
      RunsChain b e (h :: rest) s [r] s'
  | next {h : Handler} {rest : List Handler} {s s₁ s' : σ} {r : Reaction}
      {reactions : List Reaction} :
      b.Reacts e h s r s₁ → r.failure = none → r.stop = false →
      RunsChain b e rest s₁ reactions s' → RunsChain b e (h :: rest) s (r :: reactions) s'

/-- Turns on a queue.  Each takes the event in front through its whole chain
and puts the emissions at the back; none follows one that failed. -/
inductive Cascades (b : Bus σ) : List Event → σ → List Turn → List Event → σ → Prop where
  | rest (queue : List Event) (s : σ) : Cascades b queue s [] queue s
  | fail {e : Event} {queue : List Event} {s s' : σ} {reactions : List Reaction} :
      b.RunsChain e (b.chains e.kind) s reactions s' → ¬ (Turn.mk e reactions).Succeeds →
      Cascades b (e :: queue) s [⟨e, reactions⟩] queue s'
  | turn {e : Event} {queue left : List Event} {s s₁ s' : σ} {reactions : List Reaction}
      {turns : List Turn} :
      b.RunsChain e (b.chains e.kind) s reactions s₁ → (Turn.mk e reactions).Succeeds →
      Cascades b (queue ++ (Turn.mk e reactions).emitted) s₁ turns left s' →
      Cascades b (e :: queue) s (⟨e, reactions⟩ :: turns) left s'

/-! ## One execution -/

theorem Reacts.unique {e : Event} {h : Handler} {s s₁ s₂ : σ} {r₁ r₂ : Reaction}
    (h₁ : b.Reacts e h s r₁ s₁) (h₂ : b.Reacts e h s r₂ s₂) : r₁ = r₂ ∧ s₁ = s₂ := by
  obtain ⟨l₁, hl₁, hr₁⟩ := h₁
  obtain ⟨l₂, hl₂, hr₂⟩ := h₂
  obtain rfl := Option.some.inj (hl₁.symm.trans hl₂)
  exact Prod.mk.inj (hr₁.symm.trans hr₂)

theorem Reacts.present {e : Event} {h : Handler} {s s' : σ} {r : Reaction}
    (hr : b.Reacts e h s r s') : b.listeners[h.listener]? ≠ none := by
  obtain ⟨l, hl, _⟩ := hr
  simp [hl]

theorem RunsChain.unique {e : Event} {chain : List Handler} {s s₁ s₂ : σ}
    {reactions₁ reactions₂ : List Reaction} (h₁ : b.RunsChain e chain s reactions₁ s₁)
    (h₂ : b.RunsChain e chain s reactions₂ s₂) : reactions₁ = reactions₂ ∧ s₁ = s₂ := by
  induction h₁ generalizing reactions₂ s₂ with
  | done s =>
    cases h₂
    exact ⟨rfl, rfl⟩
  | absent habsent _ ih =>
    cases h₂ with
    | absent _ h₂ => exact ih h₂
    | last hr _ => exact absurd habsent hr.present
    | next hr _ _ _ => exact absurd habsent hr.present
  | last hr hend =>
    cases h₂ with
    | absent habsent _ => exact absurd habsent hr.present
    | last hr' _ =>
      obtain ⟨rfl, rfl⟩ := hr.unique hr'
      exact ⟨rfl, rfl⟩
    | next hr' hok hgo _ =>
      obtain ⟨rfl, rfl⟩ := hr.unique hr'
      simp [hok, hgo] at hend
  | next hr hok hgo _ ih =>
    cases h₂ with
    | absent habsent _ => exact absurd habsent hr.present
    | last hr' hend =>
      obtain ⟨rfl, rfl⟩ := hr.unique hr'
      simp [hok, hgo] at hend
    | next hr' _ _ h₂ =>
      obtain ⟨rfl, rfl⟩ := hr.unique hr'
      obtain ⟨rfl, rfl⟩ := ih h₂
      exact ⟨rfl, rfl⟩

/-- A cascade is determined by its start and the number of its turns. -/
theorem Cascades.unique {queue left₁ left₂ : List Event} {s s₁ s₂ : σ}
    {turns₁ turns₂ : List Turn} (h₁ : b.Cascades queue s turns₁ left₁ s₁)
    (h₂ : b.Cascades queue s turns₂ left₂ s₂) (hlen : turns₁.length = turns₂.length) :
    turns₁ = turns₂ ∧ left₁ = left₂ ∧ s₁ = s₂ := by
  induction h₁ generalizing turns₂ left₂ s₂ with
  | rest queue s =>
    cases h₂ with
    | rest => exact ⟨rfl, rfl, rfl⟩
    | fail _ _ => simp at hlen
    | turn _ _ _ => simp at hlen
  | fail hchain hfail =>
    cases h₂ with
    | rest => simp at hlen
    | fail hchain' _ =>
      obtain ⟨rfl, rfl⟩ := hchain.unique hchain'
      exact ⟨rfl, rfl, rfl⟩
    | turn hchain' hok _ =>
      obtain ⟨rfl, rfl⟩ := hchain.unique hchain'
      exact absurd hok hfail
  | turn hchain hok _ ih =>
    cases h₂ with
    | rest => simp at hlen
    | fail hchain' hfail =>
      obtain ⟨rfl, rfl⟩ := hchain.unique hchain'
      exact absurd hok hfail
    | turn hchain' _ h₂ =>
      obtain ⟨rfl, rfl⟩ := hchain.unique hchain'
      obtain ⟨rfl, rfl, rfl⟩ := ih h₂ (Nat.succ.inj hlen)
      exact ⟨rfl, rfl, rfl⟩

/-! ## The breadth-first order -/

/-- While no handler fails, nothing gets lost or overtaken: the events
dispatched, then those left, are the events queued at first, then the
emissions of each turn. -/
theorem Cascades.queue_append_emitted {queue left : List Event} {s s' : σ} {turns : List Turn}
    (h : b.Cascades queue s turns left s') (hok : ∀ t ∈ turns, t.Succeeds) :
    queue ++ turns.flatMap (·.emitted) = turns.map (·.event) ++ left := by
  induction h with
  | rest queue s => simp
  | fail _ hfail => exact absurd (hok _ List.mem_cons_self) hfail
  | turn _ _ _ ih =>
    have hrest := ih fun t ht => hok t (List.mem_cons_of_mem _ ht)
    rw [List.flatMap_cons, List.map_cons, List.cons_append, List.cons_append, ← hrest,
      List.append_assoc]

/-! ## What the loop performs -/

/-- A dispatch runs the chain of the event's kind and reports what the rule of
the chain says. -/
theorem dispatch_turn (b : Bus σ) (e : Event) (s : σ) :
    ∃ reactions, b.RunsChain e (b.chains e.kind) s reactions (b.dispatch e s).2 ∧
      (b.dispatch e s).1 = (Turn.mk e reactions).outcome := by
  unfold dispatch
  generalize b.chains e.kind = chain
  induction chain generalizing s with
  | nil => exact ⟨[], .done s, rfl⟩
  | cons h rest ih =>
    cases hl : b.listeners[h.listener]? with
    | none =>
      obtain ⟨reactions, hruns, hout⟩ := ih s
      simp only [runChain, hl]
      exact ⟨reactions, .absent hl hruns, hout⟩
    | some l =>
      rcases hr : l e s with ⟨r, s₁⟩
      have hreacts : b.Reacts e h s r s₁ := ⟨l, hl, hr⟩
      cases hfailure : r.failure with
      | some error =>
        simp only [runChain, hl, hr, hfailure]
        exact ⟨[r], .last hreacts (Or.inl (by simp [hfailure])),
          by simp [Turn.outcome, Turn.failure?, hfailure]⟩
      | none =>
        cases hstop : r.stop with
        | true =>
          simp only [runChain, hl, hr, hfailure, hstop]
          exact ⟨[r], .last hreacts (Or.inr hstop),
            by simp [Turn.outcome, Turn.failure?, Turn.emitted, hfailure]⟩
        | false =>
          obtain ⟨reactions, hruns, hout⟩ := ih s₁
          simp only [runChain, hl, hr, hfailure, hstop]
          refine ⟨r :: reactions, .next hreacts hfailure hstop hruns, ?_⟩
          rw [Turn.outcome_cons e reactions hfailure, ← hout]
          rfl

/-- The two results of a dispatch. -/
theorem dispatch_cases (b : Bus σ) (e : Event) (s : σ) :
    ∃ reactions s', b.RunsChain e (b.chains e.kind) s reactions s' ∧
      ((Turn.mk e reactions).Succeeds ∧
          b.dispatch e s = (.ok (Turn.mk e reactions).emitted, s') ∨
        ∃ error, (Turn.mk e reactions).failure? = some error ∧
          b.dispatch e s = (.error error, s')) := by
  obtain ⟨reactions, hruns, hout⟩ := b.dispatch_turn e s
  rcases hdispatch : b.dispatch e s with ⟨result, s'⟩
  rw [hdispatch] at hruns hout
  refine ⟨reactions, s', hruns, ?_⟩
  cases result with
  | ok emitted =>
    obtain ⟨hok, rfl⟩ := Turn.outcome_eq_ok hout.symm
    exact Or.inl ⟨hok, rfl⟩
  | error error => exact Or.inr ⟨error, Turn.outcome_eq_error hout.symm, rfl⟩

/-- How a cascade with room for so many turns ends, and its result. -/
inductive Ends (room : Nat) (turns : List Turn) (left : List Event) :
    Except Error (List Event) → Prop where
  /-- All is dispatched. -/
  | complete {events : List Event} : (∀ t ∈ turns, t.Succeeds) → turns.length ≤ room →
      left = [] → events = turns.map (·.event) → Ends room turns left (.ok events)
  /-- A handler failed. -/
  | failed {t : Turn} {error : Error} : t ∈ turns → t.failure? = some error →
      turns.length ≤ room + 1 → Ends room turns left (.error error)
  /-- One turn was made beyond the room, and none failed. -/
  | overflowed : (∀ t ∈ turns, t.Succeeds) → turns.length = room + 1 →
      Ends room turns left (.error (.protocol .endlessCascade))

theorem Ends.length_le {room : Nat} {turns : List Turn} {left : List Event}
    {result : Except Error (List Event)} (h : Ends room turns left result) :
    turns.length ≤ room + 1 := by
  cases h with
  | complete _ hlen _ _ => exact Nat.le_succ_of_le hlen
  | failed _ _ hlen => exact hlen
  | overflowed _ hlen => exact Nat.le_of_eq hlen

/-- A cascade returns normally exactly if no handler that ran failed and there
was room for all turns. -/
theorem Ends.ok_iff {room : Nat} {turns : List Turn} {left : List Event}
    {result : Except Error (List Event)} (h : Ends room turns left result) :
    (∃ events, result = .ok events) ↔ (∀ t ∈ turns, t.Succeeds) ∧ turns.length ≤ room := by
  cases h with
  | complete hok hlen _ _ => exact ⟨fun _ => ⟨hok, hlen⟩, fun _ => ⟨_, rfl⟩⟩
  | failed hmem hfailure _ =>
    constructor
    · rintro ⟨events, hevents⟩
      cases hevents
    · rintro ⟨hok, _⟩
      have hnone := Turn.succeeds_iff.mp (hok _ hmem)
      rw [hfailure] at hnone
      cases hnone
  | overflowed _ hlen =>
    constructor
    · rintro ⟨events, hevents⟩
      cases hevents
    · rintro ⟨_, hroom⟩
      omega

/-- A turn before a cascade takes up room for one. -/
theorem Ends.cons {room : Nat} {turns : List Turn} {left : List Event}
    {result : Except Error (List Event)} {t : Turn} (h : Ends room turns left result)
    (ht : t.Succeeds) : Ends (room + 1) (t :: turns) left (result.map (t.event :: ·)) := by
  cases h with
  | complete hok hlen hleft hevents =>
    subst hevents
    exact .complete (List.forall_mem_cons.mpr ⟨ht, hok⟩) (Nat.succ_le_succ hlen) hleft rfl
  | failed hmem hfailure hlen =>
    exact .failed (List.mem_cons_of_mem _ hmem) hfailure (Nat.succ_le_succ hlen)
  | overflowed hok hlen =>
    exact .overflowed (List.forall_mem_cons.mpr ⟨ht, hok⟩) (congrArg Nat.succ hlen)

/-- A cascade whose first turn fails ends with it. -/
theorem cascades_fail {e : Event} {queue : List Event} {s s' : σ} {reactions : List Reaction}
    {error : Error} (hruns : b.RunsChain e (b.chains e.kind) s reactions s')
    (hfailure : (Turn.mk e reactions).failure? = some error) (room : Nat) :
    b.Cascades (e :: queue) s [⟨e, reactions⟩] queue s' ∧
      Ends room [⟨e, reactions⟩] queue (.error error) := by
  have hfails : ¬ (Turn.mk e reactions).Succeeds := by
    rw [Turn.succeeds_iff, hfailure]
    exact Option.some_ne_none error
  exact ⟨.fail hruns hfails, .failed List.mem_cons_self hfailure (by simp)⟩

/-- The loop performs a cascade and ends as that cascade does.  The induction
is on the room, which every turn but the last takes from. -/
theorem cascade_ends (b : Bus σ) (room : Nat) : ∀ (queue : List Event) (s : σ),
    ∃ turns left, b.Cascades queue s turns left (b.cascade room queue s).2 ∧
      Ends room turns left (b.cascade room queue s).1 := by
  induction room with
  | zero =>
    intro queue s
    cases queue with
    | nil =>
      rw [cascade]
      exact ⟨[], [], .rest [] s, .complete (by simp) (Nat.le_refl 0) rfl rfl⟩
    | cons e queue =>
      obtain ⟨reactions, s₁, hruns, ⟨hok, hdispatch⟩ | ⟨error, hfailure, hdispatch⟩⟩ :=
        b.dispatch_cases e s
      · simp only [cascade, hdispatch]
        exact ⟨_, _, .turn hruns hok (.rest _ _), .overflowed (by simpa using hok) rfl⟩
      · simp only [cascade, hdispatch]
        exact ⟨_, _, cascades_fail hruns hfailure 0⟩
  | succ room ih =>
    intro queue s
    cases queue with
    | nil =>
      rw [cascade]
      exact ⟨[], [], .rest [] s, .complete (by simp) (Nat.zero_le _) rfl rfl⟩
    | cons e queue =>
      obtain ⟨reactions, s₁, hruns, ⟨hok, hdispatch⟩ | ⟨error, hfailure, hdispatch⟩⟩ :=
        b.dispatch_cases e s
      · obtain ⟨turns, left, hturns, hends⟩ := ih (queue ++ (Turn.mk e reactions).emitted) s₁
        simp only [cascade, hdispatch]
        exact ⟨_, left, .turn hruns hok hturns, hends.cons hok⟩
      · simp only [cascade, hdispatch]
        exact ⟨_, _, cascades_fail hruns hfailure (room + 1)⟩

/-- Raising an event is a cascade from a queue of that event alone, with room
for one turn more; its result leaves the event itself out. -/
theorem cascade_singleton (b : Bus σ) (e : Event) (s : σ) :
    b.cascade (cascadeLimit + 1) [e] s = ((b.raise e s).1.map (e :: ·), (b.raise e s).2) := by
  simp only [cascade, raise, List.nil_append]
  rcases b.dispatch e s with ⟨result, s₁⟩
  cases result <;> rfl

/-- Raising an event performs one cascade, of 1026 turns at most.  It returns
normally exactly if no handler that ran failed and no more than 1024 events
followed the raised one.  Then nothing is left in the queue, and what it
returns are both the events dispatched after the raised one and all emissions
of the handlers that ran, turn by turn, each once.  Otherwise the error is that
of a handler, or 1025 events followed.  No other turns fit the rules. -/
theorem raise_breadth_first (b : Bus σ) (e : Event) (s : σ) :
    ∃ turns left, b.Cascades [e] s turns left (b.raise e s).2 ∧ turns.length ≤ 1026 ∧
      ((∃ events, (b.raise e s).1 = .ok events) ↔
        (∀ t ∈ turns, t.Succeeds) ∧ turns.tail.length ≤ 1024) ∧
      (∀ events, (b.raise e s).1 = .ok events →
        left = [] ∧ turns.map (·.event) = e :: events ∧
          events = turns.flatMap (·.emitted)) ∧
      (∀ error, (b.raise e s).1 = .error error →
        (∃ t ∈ turns, t.failure? = some error) ∨
          turns.tail.length = 1025 ∧ error = .protocol .endlessCascade) ∧
      ∀ turns' left' s', b.Cascades [e] s turns' left' s' → turns'.length = turns.length →
        turns' = turns := by
  obtain ⟨turns, left, hturns, hends⟩ := b.cascade_ends (cascadeLimit + 1) [e] s
  rw [cascade_singleton] at hturns hends
  have hunique : ∀ turns' left' s', b.Cascades [e] s turns' left' s' →
      turns'.length = turns.length → turns' = turns :=
    fun _ _ _ h hlen => (h.unique hturns hlen).1
  refine ⟨turns, left, hturns, hends.length_le, ?_, ?_, ?_, hunique⟩
  · have htail : turns.tail.length ≤ 1024 ↔ turns.length ≤ cascadeLimit + 1 := by
      rw [List.length_tail]
      exact Nat.sub_le_iff_le_add
    have hmap : (∃ events, (b.raise e s).1 = .ok events) ↔
        ∃ events, (b.raise e s).1.map (e :: ·) = .ok events := by
      cases (b.raise e s).1 <;> simp [Except.map]
    rw [hmap, htail]
    exact hends.ok_iff
  · intro events hok
    rw [hok] at hends
    cases hends with
    | complete hsucceeds _ hleft hevents =>
      subst hleft
      have horder := hturns.queue_append_emitted hsucceeds
      rw [← hevents, List.append_nil] at horder
      exact ⟨rfl, hevents.symm, (List.cons.inj horder).2.symm⟩
  · intro error herror
    rw [herror] at hends
    cases hends with
    | failed hmem hfailure _ => exact Or.inl ⟨_, hmem, hfailure⟩
    | overflowed _ hlen =>
      refine Or.inr ⟨?_, rfl⟩
      rw [List.length_tail, hlen]
      rfl

end Bus

end Supervisor.Lifecycle
