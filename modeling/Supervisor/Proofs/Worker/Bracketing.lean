import Supervisor.Proofs.Worker.Serving

/-!
# Every connection is opened and closed

However a connection comes to its end, its component hears of it as a bracket:
it is opened first, closed last, and neither happens twice.

* `log_shut` says what a component is told when it stops.
* `connections_bracketed` puts this together with the invariant of a run.
-/

namespace Supervisor.Worker

open Poll (Host Minutes Observed)

variable {γ σ : Type} {p : Component γ} {host : Host σ} {issued : σ → StreamId → Prop}
  {listener : StreamId} {waiting : List StreamId} {d : Minuted γ σ}

/-- A connection was opened, once, and closed at last. -/
inductive Done : List Callback → Prop where
  | intro {calls : List Callback} {last : Callback} :
      Begun calls → last.cue = .closed → Done (calls ++ [last])

/-! ## The end of service -/

/-- What a component is told of the connections among some streams when it
stops. -/
def partings (listener : StreamId) (ids : List StreamId) : List Callback :=
  (ids.filter (· ≠ listener)).map fun id => ⟨id, .closed, [], none⟩

theorem callsOf_partings (listener : StreamId) {ids : List StreamId} (hnodup : ids.Nodup)
    (id : StreamId) : callsOf id (partings listener ids) =
      if id ∈ ids ∧ id ≠ listener then [⟨id, .closed, [], none⟩] else [] := by
  have hmine : callsOf id (partings listener ids) =
      ((ids.filter (· ≠ listener)).filter (· = id)).map fun id => ⟨id, .closed, [], none⟩ := by
    unfold callsOf partings
    rw [List.filter_map]
    rfl
  rw [hmine, List.filter_eq, (hnodup.filter _).count]
  simp only [List.mem_filter, decide_eq_true_eq]
  split
  · rfl
  · rfl

theorem answered_partings (listener : StreamId) (ids : List StreamId) :
    Answered (partings listener ids) := by
  unfold partings
  induction ids.filter (· ≠ listener) with
  | nil => trivial
  | cons id rest ih => exact ⟨nofun, ih⟩

namespace Desk

/-- Says goodbye to a stream. -/
def farewell {γ σ : Type} (p : Component γ) (host : Host σ) (listener : StreamId) (d : Desk γ σ)
    (id : StreamId) : Desk γ σ :=
  let component := match (d.selector.keys.find? id).bind (·.attachment) with
    | some c => if id = listener then d.component else p.onClose c d.component
    | none => d.component
  let (selector, world) := d.selector.discard id host d.world
  { d with selector, component, world }

/-- A stream as it is when service ends. -/
def Attended (listener : StreamId) (d : Minuted γ σ) (id : StreamId) : Prop :=
  ∃ key, d.selector.keys.find? id = some key ∧
    (id = listener ∧ key.attachment = none ∨
      id ≠ listener ∧ ∃ c, key.attachment = some c ∧ c.id = id)

theorem find?_farewell (d : Minuted γ σ) (id id' : StreamId) :
    (d.farewell p.noted host.minuted listener id).selector.keys.find? id' =
      if id' = id then none else d.selector.keys.find? id' :=
  find?_discard _ _ _ _ _

theorem log_farewell (p : Component γ) (host : Host σ) {id : StreamId}
    (h : d.Attended listener id) :
    let d' := d.farewell p.noted host.minuted listener id
    d'.component.1 = d.component.1 ++ partings listener [id] ∧ d'.world.2 = d.world.2 := by
  obtain ⟨key, hfound, hkind⟩ := h
  obtain ⟨hminutes, _⟩ := minutes_discard d.selector id host d.world
  refine ⟨?_, hminutes⟩
  unfold farewell
  rw [hfound, Option.bind_some]
  rcases hkind with ⟨hid, hnone⟩ | ⟨hid, c, hattached, hname⟩
  · rw [hnone]
    simp [partings, hid]
  · rw [hattached]
    dsimp only
    rw [if_neg hid]
    simp [partings, hid, Component.noted, hname]

theorem log_farewells (p : Component γ) (host : Host σ) {ids : List StreamId}
    (hnodup : ids.Nodup) (h : ∀ id ∈ ids, d.Attended listener id) :
    let d' := ids.foldl (farewell p.noted host.minuted listener) d
    d'.component.1 = d.component.1 ++ partings listener ids ∧ d'.world.2 = d.world.2 := by
  induction ids generalizing d with
  | nil => exact ⟨(List.append_nil _).symm, rfl⟩
  | cons id rest ih =>
    obtain ⟨hid, hrest⟩ := List.nodup_cons.mp hnodup
    obtain ⟨hattended, hothers⟩ := List.forall_mem_cons.mp h
    have hstill : ∀ id' ∈ rest,
        (d.farewell p.noted host.minuted listener id).Attended listener id' := by
      intro id' hid'
      obtain ⟨key, hfound, hkind⟩ := hothers id' hid'
      have hne : id' ≠ id := by
        rintro rfl
        exact hid hid'
      refine ⟨key, ?_, hkind⟩
      rw [find?_farewell, if_neg hne]
      exact hfound
    obtain ⟨hlog, hminutes⟩ := log_farewell p host hattended
    obtain ⟨hlog', hminutes'⟩ := ih hrest hstill
    refine ⟨?_, hminutes'.trans hminutes⟩
    rw [List.foldl_cons, hlog', hlog, List.append_assoc]
    unfold partings
    rw [← List.map_append, ← List.filter_append]
    rfl

/-- When a component stops it is told of the end of every connection. -/
theorem log_shut (p : Component γ) (host : Host σ) (h : Tidy issued listener waiting d) :
    let d' := d.shut p.noted host.minuted listener
    d'.component.1 = d.component.1 ++ partings listener d.selector.keys.keys ∧
      d'.world.2 = d.world.2 := by
  refine log_farewells p host (Table.nodup_keys _) fun id hid => ?_
  obtain ⟨key, hfound⟩ := Option.isSome_iff_exists.mp (Table.contains_iff.mpr hid)
  refine ⟨key, hfound, ?_⟩
  by_cases hlistener : id = listener
  · obtain ⟨key', hfound', _, hnone⟩ := h.listening.key
    rw [← hlistener] at hfound'
    cases hfound.symm.trans hfound'
    exact Or.inl ⟨hlistener, hnone⟩
  · rcases (h.standing id hlistener).none_or_inHand with hnone | ⟨key', c, hin, _⟩
    · cases hfound.symm.trans hnone
    · cases hfound.symm.trans hin.found
      exact Or.inr ⟨hlistener, c, hin.attached, hin.named⟩

end Desk

namespace Component

variable {v : Serving (List Callback × γ)} {s : σ × Minutes} {f : Front} {o : Observed Connection}

theorem Underway.selector? (h : Underway issued v s f o) :
    f.reactor.selector? f.selector = some o.selector := by
  unfold Poll.Reactor.selector?
  rw [h.observed, List.find?_cons_of_pos (by simpa using h.id)]
  rfl

theorem Underway.stop (h : Underway issued v s f o) (p : Component γ) (host : Host σ) :
    let out := stop p.noted host.minuted v s
    out.1.front = none ∧
      out.1.component.1 = v.component.1 ++ partings f.listener o.selector.keys.keys ∧
      out.2.2 = s.2 := by
  unfold Component.stop Poll.Reactor.unregister
  rw [h.front]
  dsimp only
  rw [h.selector?]
  obtain ⟨hlog, hminutes⟩ := Desk.log_shut p host h.tidy
  exact ⟨rfl, hlog, hminutes⟩

end Component

/-! ## Brackets -/

theorem mem_openedOf {calls : List Callback} {id : StreamId} :
    id ∈ openedOf calls ↔ ∃ n ∈ callsOf id calls, n.cue = .opened := by
  unfold openedOf callsOf
  simp only [List.mem_map, List.mem_filter, decide_eq_true_eq]
  constructor
  · rintro ⟨n, ⟨hn, hopened⟩, hid⟩
    exact ⟨n, ⟨hn, hid⟩, hopened⟩
  · rintro ⟨n, ⟨hn, hid⟩, hopened⟩
    exact ⟨n, ⟨hn, hopened⟩, hid⟩

theorem Begun.opened {calls : List Callback} (h : Begun calls) : ∃ n ∈ calls, n.cue = .opened := by
  cases h with
  | intro hfirst _ => exact ⟨_, List.mem_cons_self, hfirst⟩

/-- The callbacks about a stream tell whether it was accepted, and if so,
whether it is still there. -/
theorem Tidy.bracket (h : Tidy issued listener [] d) (id : StreamId) :
    (id ∈ d.world.2.accepted ∧ (id ∈ d.selector.keys.keys ∧ id ≠ listener) ∧
        Begun (callsOf id d.component.1)) ∨
      (id ∈ d.world.2.accepted ∧ id ∉ d.selector.keys.keys ∧ Done (callsOf id d.component.1)) ∨
      (id ∉ d.world.2.accepted ∧ ¬ (id ∈ d.selector.keys.keys ∧ id ≠ listener) ∧
        callsOf id d.component.1 = []) := by
  have haccepted : id ∈ d.world.2.accepted ↔ ∃ n ∈ callsOf id d.component.1, n.cue = .opened := by
    rw [← h.opened, List.append_nil]
    exact mem_openedOf
  have hnever : callsOf id d.component.1 = [] → id ∉ d.world.2.accepted := by
    intro hnone hid
    obtain ⟨n, hn, _⟩ := haccepted.mp hid
    rw [hnone] at hn
    cases hn
  by_cases hid : id = listener
  · have hnone : callsOf id d.component.1 = [] := hid ▸ h.listening.calls
    exact Or.inr (Or.inr ⟨hnever hnone, fun hand => hand.2 hid, hnone⟩)
  · rcases (h.standing id hid).stages with ⟨hnone, hgone⟩ | ⟨key, c, hin, _⟩ |
      ⟨calls, last, hcalls, hgone, hbegun, hlast, _⟩
    · refine Or.inr (Or.inr ⟨hnever hnone, fun hand => ?_, hnone⟩)
      exact Table.find?_eq_none_iff.mp hgone hand.1
    · have hmem : id ∈ d.selector.keys.keys :=
        Table.contains_iff.mp (Option.isSome_iff_exists.mpr ⟨key, hin.found⟩)
      exact Or.inl ⟨haccepted.mpr hin.begun.opened, ⟨hmem, hid⟩, hin.begun⟩
    · rw [hcalls] at haccepted ⊢
      obtain ⟨n, hn, hopened⟩ := hbegun.opened
      exact Or.inr (Or.inl ⟨haccepted.mpr ⟨n, List.mem_append_left _ hn, hopened⟩,
        Table.find?_eq_none_iff.mp hgone, .intro hbegun hlast⟩)

open Component in
/-- A component hears of every connection as a bracket.  Throughout a run, the
connections that were accepted have been opened, in this order and each of them
once.  The callbacks about such a connection begin with its opening, and if it
has been closed, they end with that; in between it is neither opened nor closed.
There are no callbacks about anything else.  A callback that fails is at once
followed by one about the error.  A step that succeeds finishes a task exactly
if it closed a connection.  And whenever the component is stopped, the bracket
of every accepted connection is closed. -/
theorem connections_bracketed {v : Serving (List Callback × γ)} {s : σ × Minutes}
    (hp : p.Proper) (hnumbers : host.NumbersAll issued) (h : Run p host issued v s) :
    openedOf v.component.1 = s.2.accepted ∧ s.2.accepted.Nodup ∧
    (∀ id ∈ s.2.accepted, Begun (callsOf id v.component.1) ∨ Done (callsOf id v.component.1)) ∧
    (∀ id ∉ s.2.accepted, callsOf id v.component.1 = []) ∧
    Answered v.component.1 ∧
    (let out := step p.noted host.minuted v s
     ∃ news, out.2.1.component.1 = v.component.1 ++ news ∧
      ∀ outcome, out.1 = .ok outcome → (outcome = .finished ↔ ∃ n ∈ news, n.cue = .closed)) ∧
    let out := stop p.noted host.minuted v s
    out.1.front = none ∧ out.2.2.accepted = s.2.accepted ∧ Answered out.1.component.1 ∧
    (∀ id ∈ s.2.accepted, Done (callsOf id out.1.component.1)) ∧
    ∀ id ∉ s.2.accepted, callsOf id out.1.component.1 = [] := by
  obtain ⟨f, o, hunderway⟩ := h.underway hp hnumbers
  have htidy := hunderway.tidy
  have hbracket := htidy.bracket
  dsimp only at hbracket
  obtain ⟨hfront, hlog, hminutes⟩ := hunderway.stop p host
  refine ⟨?_, htidy.nodup, fun id hid => ?_, fun id hid => ?_, htidy.answered,
    (hunderway.step hp hnumbers).2, hfront, congrArg Minutes.accepted hminutes, ?_,
    fun id hid => ?_, fun id hid => ?_⟩
  · have hopened := htidy.opened
    rw [List.append_nil] at hopened
    exact hopened
  · rcases hbracket id with ⟨_, _, hbegun⟩ | ⟨_, _, hdone⟩ | ⟨hnever, _⟩
    · exact Or.inl hbegun
    · exact Or.inr hdone
    · exact absurd hid hnever
  · rcases hbracket id with ⟨hmem, _⟩ | ⟨hmem, _⟩ | ⟨_, _, hnone⟩
    · exact absurd hmem hid
    · exact absurd hmem hid
    · exact hnone
  · rw [hlog]
    exact htidy.answered.append (answered_partings _ _)
  · rw [hlog, callsOf_append, callsOf_partings _ (Table.nodup_keys _)]
    rcases hbracket id with ⟨_, hserving, hbegun⟩ | ⟨_, hgone, hdone⟩ | ⟨hnever, _⟩
    · rw [if_pos hserving]
      exact .intro hbegun rfl
    · rw [if_neg fun hand => hgone hand.1, List.append_nil]
      exact hdone
    · exact absurd hid hnever
  · rw [hlog, callsOf_append, callsOf_partings _ (Table.nodup_keys _)]
    rcases hbracket id with ⟨hmem, _⟩ | ⟨hmem, _⟩ | ⟨_, hgone, hnone⟩
    · exact absurd hmem hid
    · exact absurd hmem hid
    · rw [if_neg hgone, hnone]
      rfl

/-- A component that fails on every message. -/
def recluse : Component Unit where
  onOpen c g := (.ok (), c, g)
  onMessage c _ g := (.error .channelClosed, c, g)
  onClose _ g := g
  onError c _ g := (c, g)

theorem proper_recluse : recluse.Proper where
  opens _ _ := ⟨rfl, List.prefix_rfl⟩
  hears _ _ _ := ⟨rfl, List.prefix_rfl⟩
  fails _ _ _ := ⟨rfl, List.prefix_rfl⟩
  beats _ _ := ⟨rfl, List.prefix_rfl⟩

open Component Bus.Broker in
/-- A recluse with one client, who has said something, while another client
waits to be accepted. -/
def disturbed : Serving (List Callback × Unit) × ((Nat × Poll.Script) × Minutes) :=
  let (_, v, s) := step recluse.noted rehearsal.minuted (rehearsed ()).1 (rehearsed ()).2
  (v, (s.1.1, { arriving := [(⟨2⟩, [7])] }), s.2)

open Component Bus.Broker in
/-- The next step of the recluse. -/
def rebuffed : Except Error Step × Serving (List Callback × Unit) ×
    ((Nat × Poll.Script) × Minutes) :=
  step recluse.noted rehearsal.minuted disturbed.1 disturbed.2

open Component Bus.Broker in
/-- The step closes the first connection and finishes a task.  The second
connection is closed when the component stops. -/
theorem connections_bracketed_disturbed :
    let last := (stop recluse.noted rehearsal.minuted rebuffed.2.1 rebuffed.2.2).1
    rebuffed.2.2.2.accepted = [⟨2⟩, ⟨3⟩] ∧
    rebuffed.2.1.component.1 = [⟨⟨2⟩, .opened, [], none⟩, ⟨⟨3⟩, .opened, [], none⟩,
      ⟨⟨2⟩, .message [7], [], some .channelClosed⟩, ⟨⟨2⟩, .error .channelClosed, [], none⟩,
      ⟨⟨2⟩, .closed, [], none⟩] ∧
    (rebuffed.1 = .ok .finished ∧
      ∃ news, rebuffed.2.1.component.1 = disturbed.1.component.1 ++ news ∧
        ∃ n ∈ news, n.cue = .closed) ∧
    Done (callsOf ⟨2⟩ last.component.1) ∧ Done (callsOf ⟨3⟩ last.component.1) := by
  have hdisturbed : Run recluse rehearsal (fun s id => id.val.toNat < s.1) disturbed.1
      disturbed.2 := (run_rehearsed recluse ()).step.staged _
  have hrebuffed : Run recluse rehearsal (fun s id => id.val.toNat < s.1) rebuffed.2.1
      rebuffed.2.2 := hdisturbed.step
  obtain ⟨-, -, -, -, -, ⟨news, hnews, hiff⟩, -⟩ :=
    connections_bracketed proper_recluse rehearsal_numbersAll hdisturbed
  obtain ⟨-, -, -, -, -, -, -, -, -, hdone, -⟩ :=
    connections_bracketed proper_recluse rehearsal_numbersAll hrebuffed
  have haccepted : rebuffed.2.2.2.accepted = [⟨2⟩, ⟨3⟩] := by decide +kernel
  have hfinished : rebuffed.1 = .ok .finished := by decide +kernel
  rw [haccepted] at hdone
  obtain ⟨hfirst, hsecond, -⟩ := List.forall_mem_cons.mp hdone |>.imp_right List.forall_mem_cons.mp
  exact ⟨haccepted, by decide +kernel, ⟨hfinished, news, hnews, (hiff _ hfinished).mp rfl⟩,
    hfirst, hsecond⟩

end Supervisor.Worker
