import Mathlib.Data.List.Forall2
import Supervisor.Proofs.Lifecycle.Cascade

/-!
# The calls of listeners

`Bus.noted` is a bus that writes down every call of a listener: who was
called, on which event, and how it reacted.  The log changes nothing else
(`raise_noted`), so `Bus.calls` is what a raise does to the listeners.  The log
of `Bus.recorded` goes on from raise to raise (`raise_recorded`).

* Both are cases of `Carries`: two buses react the same along a function of
  their states.
* `Visits` says what the calls of one dispatch are: the handlers of the chain
  in its order, up to the first that fails or stops the propagation.
* `calls_visits` cuts the log of a raise into the calls of its dispatches, and
  `performs_calls` runs it on the state.
* `cause_of_calls`: whatever a listener is called on is the raised event or
  was emitted by a listener.  A raise that returns normally hands out all that
  was emitted (`emitted_of_ok`), and one that does not ended with a listener
  that failed or with too many events (`failed_of_error`).
-/

namespace Supervisor.Lifecycle

variable {σ : Type}

/-- A call of a listener. -/
structure Call where
  /-- The number of the listener. -/
  listener : Nat
  event : Event
  reaction : Reaction

namespace Call

/-- The call leaves the event to the handlers that follow. -/
def Passes (c : Call) : Prop :=
  c.reaction.failure = none ∧ c.reaction.stop = false

/-- What was emitted during some calls, in order. -/
def emissions (calls : List Call) : List Event :=
  calls.flatMap (·.reaction.emitted)

end Call

/-- The calls of one dispatch: the handlers of a chain, one after the other,
up to the first that fails or stops the propagation. -/
structure Visits (chain : List Handler) (e : Event) (calls : List Call) : Prop where
  event : ∀ c ∈ calls, c.event = e
  order : calls.map (·.listener) <+: chain.map (·.listener)
  /-- Only the last call may end the chain early. -/
  passes : ∀ c ∈ calls.dropLast, c.Passes
  full : (∀ c ∈ calls, c.Passes) → calls.map (·.listener) = chain.map (·.listener)

/-- A listener whose calls are written down under a number. -/
def Listener.noted (i : Nat) (l : Listener σ) : Listener (σ × List Call) := fun e x =>
  ((l e x.1).1, (l e x.1).2, x.2 ++ [⟨i, e, (l e x.1).1⟩])

/-- A listener whose calls are written down in front of its state. -/
def Listener.recorded (i : Nat) (l : Listener σ) : Listener (List Call × σ) := fun e x =>
  ((l e x.2).1, x.1 ++ [⟨i, e, (l e x.2).1⟩], (l e x.2).2)

/-- One listener does to states under a function what another does to states. -/
def Listener.Carried {τ : Type} (f : σ → τ) (l : Listener σ) (l' : Listener τ) : Prop :=
  ∀ e s, l' e (f s) = ((l e s).1, f (l e s).2)

namespace Bus

variable {b : Bus σ}

/-- The bus, with a log of the calls of its listeners. -/
def noted (b : Bus σ) : Bus (σ × List Call) :=
  ⟨b.listeners.mapIdx Listener.noted, b.chains⟩

/-- The calls of listeners during a raise, in order. -/
def calls (b : Bus σ) (e : Event) (s : σ) : List Call :=
  (b.noted.raise e (s, [])).2.2

/-- Every handler stands for a listener that is there. -/
def Complete (b : Bus σ) : Prop :=
  ∀ kind, ∀ h ∈ b.chains kind, h.listener < b.listeners.length

/-! ## Carried along a function -/

/-- A function carries the states of one bus to those of another, whose
listeners do there what those of the first do. -/
structure Carries {τ : Type} (f : σ → τ) (b : Bus σ) (b' : Bus τ) : Prop where
  chains : b'.chains = b.chains
  listeners : ∀ i : Nat, Option.Rel (Listener.Carried f) b.listeners[i]? b'.listeners[i]?

namespace Carries

variable {τ : Type} {f : σ → τ} {b' : Bus τ}

theorem runChain (h : Carries f b b') (e : Event) (chain : List Handler) (s : σ) :
    b'.runChain e chain (f s) = Prod.map id f (b.runChain e chain s) := by
  induction chain generalizing s with
  | nil => rfl
  | cons handler rest ih =>
    have hl := h.listeners handler.listener
    unfold Bus.runChain
    generalize b.listeners[handler.listener]? = l at hl ⊢
    generalize b'.listeners[handler.listener]? = l' at hl ⊢
    cases hl with
    | none => exact ih s
    | some hl =>
      rename_i l l'
      have hreacts := hl e s
      have hrest := ih (l e s).2
      dsimp only
      rw [hreacts]
      cases hfailure : (l e s).1.failure with
      | some error => rfl
      | none =>
        cases hstop : (l e s).1.stop with
        | true => simp
        | false => simp [hrest]

theorem dispatch (h : Carries f b b') (e : Event) (s : σ) :
    b'.dispatch e (f s) = Prod.map id f (b.dispatch e s) := by
  rw [Bus.dispatch, h.chains]
  exact h.runChain e (b.chains e.kind) s

theorem cascade (h : Carries f b b') (room : Nat) (queue : List Event) (s : σ) :
    b'.cascade room queue (f s) = Prod.map id f (b.cascade room queue s) := by
  induction room generalizing queue s with
  | zero =>
    cases queue with
    | nil => rfl
    | cons e queue =>
      rw [Bus.cascade, Bus.cascade, h.dispatch]
      rcases b.dispatch e s with ⟨_ | _, s'⟩ <;> rfl
  | succ room ih =>
    cases queue with
    | nil => rfl
    | cons e queue =>
      rw [Bus.cascade, Bus.cascade, h.dispatch]
      rcases b.dispatch e s with ⟨_ | emitted, s'⟩
      · rfl
      · have hrest := ih (queue ++ emitted) s'
        simp [hrest]

theorem raise (h : Carries f b b') (e : Event) (s : σ) :
    b'.raise e (f s) = Prod.map id f (b.raise e s) := by
  rw [Bus.raise, Bus.raise, h.dispatch]
  rcases b.dispatch e s with ⟨_ | emitted, s'⟩
  · rfl
  · exact h.cascade cascadeLimit emitted s'

end Carries

/-! ## The log changes nothing -/

@[simp] theorem getElem?_listeners_noted (b : Bus σ) (i : Nat) :
    b.noted.listeners[i]? = b.listeners[i]?.map (Listener.noted i) :=
  List.getElem?_mapIdx

theorem carries_fst (b : Bus σ) : Carries Prod.fst b.noted b where
  chains := rfl
  listeners i := by
    rw [getElem?_listeners_noted]
    cases b.listeners[i]? with
    | none => exact .none
    | some l => exact .some fun _ _ => rfl

/-- Writing the calls down changes nothing else. -/
theorem raise_noted (b : Bus σ) (e : Event) (x : σ × List Call) :
    Prod.map id Prod.fst (b.noted.raise e x) = b.raise e x.1 :=
  (b.carries_fst.raise e x).symm

theorem raise_noted_nil (b : Bus σ) (e : Event) (s : σ) :
    b.noted.raise e (s, []) = ((b.raise e s).1, (b.raise e s).2, b.calls e s) := by
  rw [← b.raise_noted e (s, [])]
  rfl

/-- The bus, with a log in front of the state that goes on from raise to
raise. -/
def recorded (b : Bus σ) : Bus (List Call × σ) :=
  ⟨b.listeners.mapIdx Listener.recorded, b.chains⟩

theorem carries_recorded (b : Bus σ) (log : List Call) :
    Carries (fun x : σ × List Call => (log ++ x.2, x.1)) b.noted b.recorded where
  chains := rfl
  listeners i := by
    rw [getElem?_listeners_noted, recorded, List.getElem?_mapIdx]
    cases b.listeners[i]? with
    | none => exact .none
    | some l => exact .some fun e x => by simp [Listener.recorded, Listener.noted]

/-- A raise adds its calls to the log. -/
theorem raise_recorded (b : Bus σ) (e : Event) (log : List Call) (s : σ) :
    b.recorded.raise e (log, s) = ((b.raise e s).1, log ++ b.calls e s, (b.raise e s).2) := by
  have hraise := (b.carries_recorded log).raise e (s, [])
  rw [raise_noted_nil] at hraise
  simpa using hraise

/-! ## What the calls do -/

/-- Listeners are called one after the other. -/
inductive Performs (b : Bus σ) : σ → List Call → σ → Prop where
  | nil (s : σ) : Performs b s [] s
  | cons {c : Call} {calls : List Call} {l : Listener σ} {s s₁ s' : σ} :
      b.listeners[c.listener]? = some l → l c.event s = (c.reaction, s₁) →
      Performs b s₁ calls s' → Performs b s (c :: calls) s'

theorem Performs.append {calls later : List Call} {s s₁ s' : σ} (h : b.Performs s calls s₁)
    (hlater : b.Performs s₁ later s') : b.Performs s (calls ++ later) s' := by
  induction h with
  | nil s => exact hlater
  | cons hl hcall _ ih => exact .cons hl hcall (ih hlater)

/-- Every call is the reaction of a listener. -/
theorem Performs.exists_reaction {calls : List Call} {s s' : σ} {c : Call}
    (h : b.Performs s calls s') (hc : c ∈ calls) :
    ∃ l ∈ b.listeners, ∃ s₁, (l c.event s₁).1 = c.reaction := by
  induction h with
  | nil s => cases hc
  | cons hl hcall _ ih =>
    rcases List.mem_cons.mp hc with rfl | hc
    · exact ⟨_, List.mem_of_getElem? hl, _, congrArg Prod.fst hcall⟩
    · exact ih hc

theorem Reacts.of_noted {e : Event} {h : Handler} {x y : σ × List Call} {r : Reaction}
    (hr : b.noted.Reacts e h x r y) :
    b.Performs x.1 [⟨h.listener, e, r⟩] y.1 ∧ y.2 = x.2 ++ [⟨h.listener, e, r⟩] := by
  obtain ⟨l, hl, heq⟩ := hr
  rw [getElem?_listeners_noted, Option.map_eq_some_iff] at hl
  obtain ⟨l, hl, rfl⟩ := hl
  cases heq
  exact ⟨.cons hl rfl (.nil _), rfl⟩

theorem RunsChain.visits {e : Event} {chain : List Handler} {x y : σ × List Call}
    {reactions : List Reaction} (h : b.noted.RunsChain e chain x reactions y)
    (hchain : ∀ h ∈ chain, h.listener < b.listeners.length) :
    ∃ calls, y.2 = x.2 ++ calls ∧ calls.map (·.reaction) = reactions ∧
      b.Performs x.1 calls y.1 ∧ Visits chain e calls := by
  induction h with
  | done x => exact ⟨[], by simp, rfl, .nil _, ⟨by simp, List.prefix_rfl, by simp, fun _ => rfl⟩⟩
  | @absent h rest _ _ _ habsent _ _ =>
    have hlt := hchain h List.mem_cons_self
    simp [hlt] at habsent
  | @last h rest x y r hr hend =>
    obtain ⟨hperforms, hlog⟩ := hr.of_noted
    refine ⟨_, hlog, rfl, hperforms, ⟨by simp, by simp, by simp, fun hall => ?_⟩⟩
    have hpasses := hall _ List.mem_cons_self
    rcases hend with hfailure | hstop
    · exact absurd hpasses.1 hfailure
    · rw [hpasses.2] at hstop
      cases hstop
  | @next h rest x z y r reactions hr hok hgo _ ih =>
    obtain ⟨hperforms, hlog⟩ := hr.of_noted
    obtain ⟨calls, hlater, hreactions, hrest, hvisits⟩ :=
      ih fun h hh => hchain h (List.mem_cons_of_mem _ hh)
    refine ⟨⟨h.listener, e, r⟩ :: calls, ?_, by simp [hreactions], hperforms.append hrest, ?_⟩
    · rw [hlater, hlog]
      simp
    · refine ⟨?_, ?_, ?_, ?_⟩
      · exact List.forall_mem_cons.mpr ⟨rfl, hvisits.event⟩
      · simpa using hvisits.order
      · intro c hc
        cases calls with
        | nil => cases hc
        | cons d calls =>
          rcases List.mem_cons.mp hc with rfl | hc
          · exact ⟨hok, hgo⟩
          · exact hvisits.passes c hc
      · intro hall
        simpa using hvisits.full fun c hc => hall c (List.mem_cons_of_mem _ hc)

theorem Cascades.visits {queue left : List Event} {x y : σ × List Call} {turns : List Turn}
    (h : b.noted.Cascades queue x turns left y) (hb : b.Complete) :
    ∃ visits : List (List Call), y.2 = x.2 ++ visits.flatten ∧
      visits.flatten.map (·.reaction) = turns.flatMap (·.reactions) ∧
      b.Performs x.1 visits.flatten y.1 ∧
      List.Forall₂ (fun e calls => Visits (b.chains e.kind) e calls) (turns.map (·.event))
        visits := by
  induction h with
  | rest queue x => exact ⟨[], by simp, rfl, .nil _, .nil⟩
  | @fail e _ _ _ _ hchain _ =>
    obtain ⟨calls, hlog, hreactions, hperforms, hvisits⟩ := hchain.visits (hb e.kind)
    exact ⟨[calls], by simpa using hlog, by simpa using hreactions, by simpa using hperforms,
      .cons hvisits .nil⟩
  | @turn e _ _ _ _ _ _ _ hchain _ _ ih =>
    obtain ⟨calls, hlog, hreactions, hperforms, hvisits⟩ := hchain.visits (hb e.kind)
    obtain ⟨visits, hlater, hrest, hafter, hall⟩ := ih
    refine ⟨calls :: visits, ?_, ?_, ?_, .cons hvisits hall⟩
    · rw [hlater, hlog]
      simp
    · rw [List.flatten_cons, List.map_append, hreactions, hrest]
      rfl
    · exact hperforms.append hafter

/-- What is dispatched was queued or emitted. -/
theorem Cascades.cause {queue left : List Event} {s s' : σ} {turns : List Turn}
    (h : b.Cascades queue s turns left s') :
    ∀ t ∈ turns, t.event ∈ queue ∨ t.event ∈ turns.flatMap (·.emitted) := by
  induction h with
  | rest queue s => exact nofun
  | fail _ _ =>
    intro t ht
    rw [List.mem_singleton.mp ht]
    exact Or.inl List.mem_cons_self
  | turn _ _ _ ih =>
    intro t ht
    rw [List.flatMap_cons, List.mem_append]
    rcases List.mem_cons.mp ht with rfl | ht
    · exact Or.inl List.mem_cons_self
    · rcases ih t ht with hqueue | hemitted
      · rcases List.mem_append.mp hqueue with hqueue | hemitted
        · exact Or.inl (List.mem_cons_of_mem _ hqueue)
        · exact Or.inr (Or.inl hemitted)
      · exact Or.inr (Or.inr hemitted)

/-- The reaction that fails is the last of its chain. -/
theorem RunsChain.failed_last {e : Event} {chain : List Handler} {s s' : σ}
    {reactions : List Reaction} {r : Reaction} (h : b.RunsChain e chain s reactions s')
    (hr : r ∈ reactions) (hfails : r.failure ≠ none) : reactions.getLast? = some r := by
  induction h with
  | done s => cases hr
  | absent _ _ ih => exact ih hr
  | last _ _ =>
    rw [List.mem_singleton.mp hr]
    rfl
  | next _ hok _ _ ih =>
    rcases List.mem_cons.mp hr with rfl | hr
    · exact absurd hok hfails
    · rw [List.getLast?_cons, ih hr]
      rfl

/-- The reaction that fails is the last of all. -/
theorem Cascades.failed_last {queue left : List Event} {s s' : σ} {turns : List Turn}
    {r : Reaction} (h : b.Cascades queue s turns left s') (hr : r ∈ turns.flatMap (·.reactions))
    (hfails : r.failure ≠ none) : (turns.flatMap (·.reactions)).getLast? = some r := by
  induction h with
  | rest queue s => cases hr
  | fail hchain _ =>
    rw [List.flatMap_cons, List.flatMap_nil, List.append_nil] at hr ⊢
    exact hchain.failed_last hr hfails
  | turn _ hok _ ih =>
    rw [List.flatMap_cons] at hr ⊢
    rcases List.mem_append.mp hr with hr | hr
    · exact absurd (hok r hr) hfails
    · rw [List.getLast?_append, ih hr]
      rfl

theorem Cascades.head?_event {e : Event} {queue left : List Event} {s s' : σ} {turns : List Turn}
    (h : b.Cascades (e :: queue) s turns left s') (hturns : turns ≠ []) :
    (turns.map (·.event)).head? = some e := by
  cases h with
  | rest => exact absurd rfl hturns
  | fail _ _ => rfl
  | turn _ _ _ => rfl

theorem event_mem_of_visits {dispatched : List Event} {visits : List (List Call)}
    (h : List.Forall₂ (fun e calls => Visits (b.chains e.kind) e calls) dispatched visits)
    {c : Call} (hc : c ∈ visits.flatten) : c.event ∈ dispatched := by
  induction h with
  | nil => cases hc
  | cons hvisits _ ih =>
    rw [List.flatten_cons] at hc
    rcases List.mem_append.mp hc with hc | hc
    · rw [hvisits.event c hc]
      exact List.mem_cons_self
    · exact List.mem_cons_of_mem _ (ih hc)

/-! ## The calls of a raise -/

section Calls

variable {e : Event} {s : σ}

/-- The cascade of a raise, with its calls. -/
theorem exists_visits (hb : b.Complete) (e : Event) (s : σ) :
    ∃ turns left visits,
      b.noted.Cascades [e] (s, []) turns left ((b.raise e s).2, b.calls e s) ∧
      Ends (cascadeLimit + 1) turns left ((b.raise e s).1.map (e :: ·)) ∧
      b.calls e s = visits.flatten ∧
      (b.calls e s).map (·.reaction) = turns.flatMap (·.reactions) ∧
      b.Performs s (b.calls e s) (b.raise e s).2 ∧
      List.Forall₂ (fun e calls => Visits (b.chains e.kind) e calls) (turns.map (·.event))
        visits := by
  obtain ⟨turns, left, hturns, hends⟩ := b.noted.cascade_ends (cascadeLimit + 1) [e] (s, [])
  rw [cascade_singleton, raise_noted_nil] at hturns hends
  obtain ⟨visits, hlog, hreactions, hperforms, hvisits⟩ := hturns.visits hb
  have hcalls : b.calls e s = visits.flatten := by simpa using hlog
  rw [← hcalls] at hreactions hperforms
  exact ⟨turns, left, visits, hturns, hends, hcalls, hreactions, hperforms, hvisits⟩

/-- The calls make up what a raise does to the state. -/
theorem performs_calls (hb : b.Complete) (e : Event) (s : σ) :
    b.Performs s (b.calls e s) (b.raise e s).2 := by
  obtain ⟨_, _, _, _, _, _, _, hperforms, _⟩ := exists_visits hb e s
  exact hperforms

theorem flatMap_emitted {calls : List Call} {turns : List Turn}
    (h : calls.map (·.reaction) = turns.flatMap (·.reactions)) :
    turns.flatMap (·.emitted) = Call.emissions calls := by
  calc turns.flatMap (·.emitted)
    _ = (turns.flatMap (·.reactions)).flatMap (·.emitted) := by
      rw [List.flatMap_assoc]
      rfl
    _ = Call.emissions calls := by
      rw [← h, List.flatMap_map]
      rfl

/-- A raise that returns normally hands out all that was emitted. -/
theorem emitted_of_ok (hb : b.Complete) {events : List Event}
    (h : (b.raise e s).1 = .ok events) : events = Call.emissions (b.calls e s) := by
  obtain ⟨turns, left, _, hturns, hends, _, hreactions, _, _⟩ := exists_visits hb e s
  rw [h] at hends
  cases hends with
  | complete hok _ hleft hevents =>
    subst hleft
    have horder := hturns.queue_append_emitted hok
    rw [← hevents, List.append_nil, flatMap_emitted hreactions] at horder
    exact (List.cons.inj horder).2.symm

/-- A raise that does not return normally ended with a call that failed, or
with too many events. -/
theorem failed_of_error (hb : b.Complete) {error : Error} (h : (b.raise e s).1 = .error error) :
    (∃ c, (b.calls e s).getLast? = some c ∧ c.reaction.failure = some error) ∨
      error = .protocol .endlessCascade := by
  obtain ⟨turns, left, _, hturns, hends, _, hreactions, _, _⟩ := exists_visits hb e s
  rw [h] at hends
  cases hends with
  | overflowed _ _ => exact Or.inr rfl
  | @failed t _ ht hfailure _ =>
    obtain ⟨r, hr, hfails⟩ := List.exists_of_findSome?_eq_some hfailure
    have hlast := hturns.failed_last (List.mem_flatMap.mpr ⟨t, ht, hr⟩) (by simp [hfails])
    rw [← hreactions, List.getLast?_map, Option.map_eq_some_iff] at hlast
    obtain ⟨c, hc, rfl⟩ := hlast
    exact Or.inl ⟨c, hc, hfails⟩

/-- The calls of a raise are those of its dispatches, one after the other. -/
theorem calls_visits (hb : b.Complete) (e : Event) (s : σ) :
    ∃ dispatched visits, b.calls e s = visits.flatten ∧
      List.Forall₂ (fun e calls => Visits (b.chains e.kind) e calls) dispatched visits ∧
      dispatched.head? = some e ∧
      ∀ events, (b.raise e s).1 = .ok events → dispatched = e :: events := by
  obtain ⟨turns, left, visits, hturns, hends, hcalls, _, _, hvisits⟩ := exists_visits hb e s
  refine ⟨turns.map (·.event), visits, hcalls, hvisits, hturns.head?_event ?_, fun events hok => ?_⟩
  · -- Without a turn nothing would have been dispatched, not even the event itself.
    rintro rfl
    rcases hraise : (b.raise e s).1 with error | events
    · rw [hraise] at hends
      cases hends with
      | failed ht _ _ => cases ht
      | overflowed _ hlen => cases hlen
    · rw [hraise] at hends
      cases hends with
      | complete _ _ _ hevents => cases hevents
  · rw [hok] at hends
    cases hends with
    | complete _ _ _ hevents => exact hevents.symm

/-- Whatever a listener is called on is the raised event or was emitted. -/
theorem cause_of_calls (hb : b.Complete) {c : Call} (hc : c ∈ b.calls e s) :
    c.event = e ∨ c.event ∈ Call.emissions (b.calls e s) := by
  obtain ⟨turns, left, visits, hturns, _, hcalls, hreactions, _, hvisits⟩ := exists_visits hb e s
  have hevent := event_mem_of_visits hvisits (hcalls ▸ hc)
  obtain ⟨t, ht, hevent⟩ := List.mem_map.mp hevent
  rcases hturns.cause t ht with hraised | hemitted
  · rw [← hevent]
    exact Or.inl (List.mem_singleton.mp hraised)
  · rw [flatMap_emitted hreactions, hevent] at hemitted
    exact Or.inr hemitted

end Calls

end Bus

end Supervisor.Lifecycle
