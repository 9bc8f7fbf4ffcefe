import Supervisor.Proofs.Bus.Phases
import Supervisor.Proofs.Worker.Desk

/-!
# A component that serves

Between two steps every stream of a component stands as `Standing` says, and
nothing else is kept.

* `Tidy` is this invariant, for a desk.  Some connections may still wait to be
  opened, namely while others of the same accept are.
* `Tidy.serveAll` and `Tidy.beats` are the two callbacks of a tick.
* `Reactor.tick_keeps` says for any reactor with one selector that a tick keeps
  what its parts keep.
* `Run` are the states of a component from its start on, and `Run.underway` is
  the invariant of a run.
-/

namespace Supervisor

namespace Poll

variable {α σ : Type}

/-! ## A reactor with one selector -/

/-- What every part of a tick keeps. -/
structure Handler.Keeps (host : Host σ) (handler : Handler α σ) (Q : Selector α → σ → Prop) :
    Prop where
  pruned : ∀ {sel : Selector α} {s : σ}, Q sel s → Q sel.pruneClosed s
  applied : ∀ {sel : Selector α} {s : σ} (polled : List StreamId)
    (report : StreamId → Readiness), Q sel s → Q (sel.applyReadiness polled report) s
  poll : ∀ {sel s} (entries : List PollEntry) (timeout : Option Duration), Q sel s →
    Q sel (host.poll entries timeout s).2
  sleep : ∀ {sel s} (d : Duration), Q sel s → Q sel (host.sleep d s)
  ready : ∀ {sel : Selector α} {s : σ} (id : SelectorId) (polled : List StreamId)
    (report : StreamId → Readiness), Q (sel.applyReadiness polled report) s →
      let out := handler.onReady id (sel.applyReadiness polled report) s
      Q out.2.1 out.2.2
  timeout : ∀ {sel : Selector α} {s : σ} (id : SelectorId), Q sel s →
    let out := handler.onTimeout id sel s
    Q out.2.1 out.2.2

namespace Reactor

variable {host : Host σ} {handler : Handler α σ} {Q : Selector α → σ → Prop}

theorem pollMerged_keeps (h : handler.Keeps host Q) (entries : List PollEntry) (budget : Duration)
    {sel : Selector α} {s : σ} (hs : Q sel s) : Q sel (pollMerged host entries budget s).2 := by
  have hpoll := h.poll entries (some budget) hs
  unfold pollMerged
  split
  · exact h.sleep budget hs
  · generalize host.poll entries (some budget) s = polled at hpoll ⊢
    obtain ⟨result, s'⟩ := polled
    cases result with
    | reported | interrupted | failed => exact hpoll

theorem serve_keeps (h : handler.Keeps host Q) (now : Duration) (report : StreamId → Readiness)
    {o : Observed α} {s : σ} (hs : Q o.selector s) :
    let out := serve handler now report o s
    out.2.1.id = o.id ∧ Q out.2.1.selector out.2.2 := by
  unfold serve
  dsimp only
  have happlied := h.applied (o.selector.pollEntries.map (·.id)) report hs
  split
  · exact ⟨rfl, h.ready o.id _ report happlied⟩
  · split
    · exact ⟨rfl, h.timeout o.id happlied⟩
    · exact ⟨rfl, happlied⟩

/-- A tick keeps what all its parts keep. -/
theorem tick_keeps (h : handler.Keeps host Q) {r : Reactor α} {o : Observed α}
    (hone : r.observed = [o]) {s : σ} (hs : Q o.selector s) :
    ∃ o', (r.tick host handler s).2.1.observed = [o'] ∧ o'.id = o.id ∧
      Q o'.selector (r.tick host handler s).2.2 := by
  let pruned : Observed α := { o with selector := o.selector.pruneClosed }
  have hpruned : r.observed.map (fun o => { o with selector := o.selector.pruneClosed }) =
      [pruned] := congrArg (List.map _) hone
  have hpolled := pollMerged_keeps h ([pruned].flatMap fun o => o.selector.pollEntries)
    (r.waitBudget (host.clock s)) (h.pruned hs)
  unfold tick
  dsimp only
  rw [hpruned]
  generalize pollMerged host ([pruned].flatMap fun o => o.selector.pollEntries)
    (r.waitBudget (host.clock s)) s = polled at hpolled ⊢
  obtain ⟨outcome, s'⟩ := polled
  cases outcome with
  | error e => exact ⟨_, rfl, rfl, hpolled⟩
  | ok report =>
    obtain ⟨hid, hserved⟩ := serve_keeps h (host.clock s') report (o := pruned) hpolled
    dsimp only [serveAll]
    generalize serve handler (host.clock s') report pruned s' = served at hid hserved ⊢
    obtain ⟨result, o', s''⟩ := served
    cases result with
    | error e => exact ⟨o', rfl, hid, hserved⟩
    | ok count => exact ⟨o', rfl, hid, hserved⟩

end Reactor

end Poll

namespace Worker

open Poll (AcceptEvent Handler Host Key Minutes Observed Reactor Selector arrivals)

variable {γ σ : Type} {p : Component γ} {host : Host σ} {issued : σ → StreamId → Prop}
  {listener : StreamId} {waiting : List StreamId} {d d' d'' : Minuted γ σ}

/-! ## Order at a desk -/

/-- A listener: no connection, and open. -/
structure Listening (listener : StreamId) (sight : Sight) : Prop where
  calls : sight.calls = []
  key : ∃ key, sight.key? = some key ∧ key.stream = { id := listener, kind := .listener } ∧
    key.attachment = none

namespace Sight

/-- The same with other streams ready. -/
def prepared (sight : Sight) (ready : Key Connection → Poll.Ops) : Sight :=
  { sight with key? := sight.key?.map fun key => { key with ready := ready key } }

theorem prepared_eq_unknown (sight : Sight) (ready : Key Connection → Poll.Ops) :
    sight.prepared ready = ⟨[], [], none⟩ ↔ sight = ⟨[], [], none⟩ := by
  obtain ⟨calls, traffic, key?⟩ := sight
  cases key? with
  | none => exact Iff.rfl
  | some key => simp [prepared]

end Sight

theorem Listening.prepared {sight : Sight} (h : Listening listener sight)
    (ready : Key Connection → Poll.Ops) : Listening listener (sight.prepared ready) := by
  obtain ⟨key, hkey, hstream, hnone⟩ := h.key
  exact ⟨h.calls, _, congrArg (Option.map _) hkey, hstream, hnone⟩

theorem InHand.prepared {id : StreamId} {sight : Sight} {key : Key Connection} {c : Connection}
    (h : InHand id sight key c) (ready : Key Connection → Poll.Ops) :
    InHand id (sight.prepared ready) { key with ready := ready key } c where
  found := congrArg (Option.map _) h.found
  stream := h.stream
  reading := h.reading
  attached := h.attached
  named := h.named
  begun := h.begun
  account := h.account

theorem Standing.prepared {id : StreamId} {sight : Sight} (h : Standing id sight)
    (ready : Key Connection → Poll.Ops) : Standing id (sight.prepared ready) := by
  cases h with
  | unknown => exact .unknown
  | serving hin hhealthy hwriting => exact .serving (hin.prepared ready) hhealthy hwriting
  | closed hbegun hlast hsilent hspent => exact .closed hbegun hlast hsilent hspent

/-- Every stream of a desk stands as it should.  The connections in `waiting`
were accepted but not opened yet. -/
structure Tidy (issued : σ → StreamId → Prop) (listener : StreamId) (waiting : List StreamId)
    (d : Minuted γ σ) : Prop where
  listening : Listening listener (d.sight listener)
  standing : ∀ id ≠ listener, Standing id (d.sight id)
  unknown : ∀ id ∈ waiting, id ≠ listener ∧ d.sight id = ⟨[], [], none⟩
  opened : openedOf d.component.1 ++ waiting = d.world.2.accepted
  nodup : d.world.2.accepted.Nodup
  answered : Answered d.component.1
  seen : ∀ id, d.sight id ≠ ⟨[], [], none⟩ → issued d.world.1 id
  known : ∀ id ∈ d.world.2.accepted, issued d.world.1 id

/-- What remains of what a desk did: callbacks, and numbers that were given
out. -/
structure Progress (issued : σ → StreamId → Prop) (d d' : Minuted γ σ) : Prop where
  log : ∃ news, d'.component.1 = d.component.1 ++ news ∧
    d'.closed = d.closed + news.countP (·.cue = .closed)
  keeps : ∀ {id}, issued d.world.1 id → issued d'.world.1 id

namespace Progress

theorem refl (d : Minuted γ σ) : Progress issued d d :=
  ⟨⟨[], (List.append_nil _).symm, rfl⟩, fun h => h⟩

theorem trans (h : Progress issued d d') (h' : Progress issued d' d'') :
    Progress issued d d'' := by
  obtain ⟨news, hlog, hclosed⟩ := h.log
  obtain ⟨news', hlog', hclosed'⟩ := h'.log
  refine ⟨⟨news ++ news', ?_, ?_⟩, fun hid => h'.keeps (h.keeps hid)⟩
  · rw [hlog', hlog, List.append_assoc]
  · rw [hclosed', hclosed, List.countP_append, Nat.add_assoc]

end Progress

theorem Visit.progress (hnumbers : host.NumbersAll issued) {id : StreamId} {news : List Callback}
    (h : Visit host id d d' news) : Progress issued d d' :=
  ⟨⟨news, h.log, h.closed⟩, hnumbers.calls h.calls⟩

namespace Tidy

/-- After a visit everything stands as it should again.  A visit to a connection
that waited opens it. -/
theorem settled (hnumbers : host.NumbersAll issued) {id : StreamId} {news : List Callback}
    (h : Tidy issued listener (openedOf news ++ waiting) d)
    (hvisit : Desk.Settled host id d d' news) (hid : id ≠ listener)
    (hissued : issued d.world.1 id) (hlater : id ∉ waiting) : Tidy issued listener waiting d' where
  listening := by
    rw [hvisit.visit.sight_of_ne (Ne.symm hid)]
    exact h.listening
  standing id' hid' := by
    by_cases hsame : id' = id
    · subst hsame
      exact hvisit.stands
    · rw [hvisit.visit.sight_of_ne hsame]
      exact h.standing id' hid'
  unknown id' hid' := by
    have hne : id' ≠ id := fun hsame => hlater (hsame ▸ hid')
    rw [hvisit.visit.sight_of_ne hne]
    exact h.unknown id' (List.mem_append_right _ hid')
  opened := by
    rw [hvisit.visit.log, openedOf_append, List.append_assoc, h.opened,
      hvisit.visit.accepted]
  nodup := by
    rw [hvisit.visit.accepted]
    exact h.nodup
  answered := by
    rw [hvisit.visit.log]
    exact h.answered.append hvisit.visit.answered
  seen id' hknown := by
    apply hnumbers.calls hvisit.visit.calls
    by_cases hsame : id' = id
    · subst hsame
      exact hissued
    · rw [hvisit.visit.sight_of_ne hsame] at hknown
      exact h.seen id' hknown
  known id' hid' := by
    rw [hvisit.visit.accepted] at hid'
    exact hnumbers.calls hvisit.visit.calls (h.known id' hid')

/-- While others have been accepted, every connection is opened in turn. -/
theorem enroll (hp : p.Proper) (hnumbers : host.NumbersAll issued) {events : List AcceptEvent}
    (h : Tidy issued listener (arrivals events) d) :
    let out := Desk.enroll p.noted host.minuted events d
    out.1 = .ok () ∧ Tidy issued listener [] out.2 ∧ Progress issued d out.2 := by
  induction events generalizing d with
  | nil => exact ⟨rfl, h, .refl d⟩
  | cons event rest ih =>
    cases event with
    | failed failure => exact ⟨rfl, h, .refl d⟩
    | connection id =>
      have hwaiting : arrivals (.connection id :: rest) = id :: arrivals rest := rfl
      rw [hwaiting] at h
      obtain ⟨hid, hunknown⟩ := h.unknown id List.mem_cons_self
      have hmem : id ∈ d.world.2.accepted := by
        rw [← h.opened]
        exact List.mem_append_right _ List.mem_cons_self
      have hlater : id ∉ arrivals rest := by
        have hnodup := h.nodup
        rw [← h.opened] at hnodup
        exact (List.nodup_cons.mp hnodup.of_append_right).1
      obtain ⟨d', news, henroll, hsettled, hopened⟩ :=
        Desk.enroll_connection hp host hunknown rest
      have hbefore : Tidy issued listener (openedOf news ++ arrivals rest) d := hopened ▸ h
      obtain ⟨hok, htidy, hprogress⟩ :=
        ih (hbefore.settled hnumbers hsettled hid (h.known id hmem) hlater)
      simp only [henroll]
      exact ⟨hok, htidy, (hsettled.visit.progress hnumbers).trans hprogress⟩

theorem open_of_key (h : Tidy issued listener waiting d) {id : StreamId} {key : Key Connection}
    (hfound : d.selector.keys.find? id = some key) : key.stream.closed = false := by
  by_cases hid : id = listener
  · obtain ⟨key', hfound', hstream, _⟩ := h.listening.key
    rw [← hid] at hfound'
    cases hfound.symm.trans hfound'
    rw [hstream]
  · rcases (h.standing id hid).none_or_inHand with hnone | ⟨key', c, hin, _⟩
    · cases hfound.symm.trans hnone
    · cases hfound.symm.trans hin.found
      rw [hin.stream]

theorem sight_listener_ne (h : Tidy issued listener waiting d) :
    d.sight listener ≠ ⟨[], [], none⟩ := by
  obtain ⟨key, hkey, _⟩ := h.listening.key
  intro hnone
  rw [hnone] at hkey
  cases hkey

/-- Accepted connections have not been seen before. -/
theorem accepting (hnumbers : host.NumbersAll issued) (h : Tidy issued listener [] d) :
    let out := host.minuted.accept listener d.world
    Tidy issued listener (arrivals out.1) { d with world := out.2 } := by
  intro out
  have hcall : host.Call d.world.1 out.2.1 := .accept listener d.world.1
  have hfresh : ∀ id ∈ arrivals out.1, ¬ issued d.world.1 id := fun id hid =>
    hnumbers.fresh ((Poll.arrivals_sublist _).subset hid)
  refine ⟨h.listening, h.standing, fun id hid => ⟨?_, ?_⟩, ?_, ?_, h.answered, fun id hseen => ?_,
    fun id hid => ?_⟩
  · rintro rfl
    exact hfresh id hid (h.seen id h.sight_listener_ne)
  · by_contra hseen
    exact hfresh id hid (h.seen id hseen)
  · have hopened := h.opened
    rw [List.append_nil] at hopened
    exact congrArg (· ++ arrivals out.1) hopened
  · refine List.nodup_append.mpr ⟨h.nodup, ?_, fun id hid id' hid' hsame => ?_⟩
    · exact (hnumbers.nodup d.world.1 listener).sublist (Poll.arrivals_sublist _)
    · exact hfresh id' hid' (hsame ▸ h.known id hid)
  · exact hnumbers.keeps hcall (h.seen id hseen)
  · rcases List.mem_append.mp hid with hid | hid
    · exact hnumbers.keeps hcall (h.known id hid)
    · exact hnumbers.noted ((Poll.arrivals_sublist _).subset hid)

theorem accept (hp : p.Proper) (hnumbers : host.NumbersAll issued)
    (h : Tidy issued listener [] d) :
    let out := d.accept p.noted host.minuted listener
    out.1 = .ok () ∧ Tidy issued listener [] out.2 ∧ Progress issued d out.2 := by
  obtain ⟨key, hfound, hstream, _⟩ := h.listening.key
  have hfound : d.selector.keys.find? listener = some key := hfound
  have haccept : d.accept p.noted host.minuted listener =
      Desk.enroll p.noted host.minuted (host.minuted.accept listener d.world).1
        { d with world := (host.minuted.accept listener d.world).2 } := by
    unfold Desk.accept
    rw [hfound]
    dsimp only
    rw [hstream]
    rfl
  rw [haccept]
  obtain ⟨hok, htidy, hprogress⟩ := enroll hp hnumbers (h.accepting hnumbers)
  refine ⟨hok, htidy, ?_⟩
  exact ⟨hprogress.log, fun hid =>
    hprogress.keeps (hnumbers.keeps (.accept listener d.world.1) hid)⟩

/-- All that is ready is dealt with. -/
theorem serveAll (hp : p.Proper) (hnumbers : host.NumbersAll issued) {ids : List StreamId}
    (h : Tidy issued listener [] d) (hids : ∀ id ∈ ids, issued d.world.1 id) :
    let out := Desk.serveAll p.noted host.minuted listener ids d
    out.1 = .ok () ∧ Tidy issued listener [] out.2 ∧ Progress issued d out.2 := by
  induction ids generalizing d with
  | nil => exact ⟨rfl, h, .refl d⟩
  | cons id rest ih =>
    obtain ⟨hid, hrest⟩ := List.forall_mem_cons.mp hids
    have hthen : ∀ {d' : Minuted γ σ}, Tidy issued listener [] d' → Progress issued d d' →
        let out := Desk.serveAll p.noted host.minuted listener rest d'
        out.1 = .ok () ∧ Tidy issued listener [] out.2 ∧ Progress issued d out.2 := by
      intro d' htidy hprogress
      obtain ⟨hok, htidy', hprogress'⟩ :=
        ih htidy fun id' hid' => hprogress.keeps (hrest id' hid')
      exact ⟨hok, htidy', hprogress.trans hprogress'⟩
    unfold Desk.serveAll
    by_cases hlistener : id = listener
    · rw [if_pos hlistener]
      obtain ⟨hok, htidy, hprogress⟩ := h.accept hp hnumbers
      generalize d.accept p.noted host.minuted listener = out at hok htidy hprogress ⊢
      obtain ⟨result, d'⟩ := out
      cases hok
      exact hthen htidy hprogress
    · rw [if_neg hlistener]
      obtain ⟨news, hsettled, hunopened⟩ :=
        Desk.settled_ready hp host (h.standing id hlistener)
      have hbefore : Tidy issued listener (openedOf news ++ []) d := by
        rw [openedOf_eq_nil hunopened]
        exact h
      exact hthen (hbefore.settled hnumbers hsettled hlistener hid List.not_mem_nil)
        (hsettled.visit.progress hnumbers)

/-- Heartbeats are given to all connections. -/
theorem beats (hp : p.Proper) (hnumbers : host.NumbersAll issued) {ids : List StreamId}
    (h : Tidy issued listener [] d) (hids : ∀ id ∈ ids, id ≠ listener ∧ issued d.world.1 id) :
    let d' := ids.foldl (Desk.beat p.noted host.minuted) d
    Tidy issued listener [] d' ∧ Progress issued d d' := by
  induction ids generalizing d with
  | nil => exact ⟨h, .refl d⟩
  | cons id rest ih =>
    obtain ⟨⟨hlistener, hid⟩, hrest⟩ := List.forall_mem_cons.mp hids
    obtain ⟨news, hsettled, hunopened⟩ :=
      Desk.settled_beat hp host (h.standing id hlistener)
    have hbefore : Tidy issued listener (openedOf news ++ []) d := by
      rw [openedOf_eq_nil hunopened]
      exact h
    have htidy := hbefore.settled hnumbers hsettled hlistener hid List.not_mem_nil
    have hprogress := hsettled.visit.progress hnumbers
    obtain ⟨htidy', hprogress'⟩ := ih htidy fun id' hid' =>
      ⟨(hrest id' hid').1, hprogress.keeps (hrest id' hid').2⟩
    exact ⟨htidy', hprogress.trans hprogress'⟩

/-- What a stream is ready for does not matter. -/
theorem reselect (h : Tidy issued listener waiting d) {selector : Selector Connection}
    (ready : StreamId → Key Connection → Poll.Ops)
    (hkeys : ∀ id, selector.keys.find? id =
      (d.selector.keys.find? id).map fun key => { key with ready := ready id key }) :
    Tidy issued listener waiting { d with selector } := by
  have hsight : ∀ id, Desk.sight { d with selector } id = (d.sight id).prepared (ready id) := by
    intro id
    unfold Desk.sight Sight.prepared
    rw [hkeys]
  have hunknown : ∀ id, Desk.sight { d with selector } id = ⟨[], [], none⟩ ↔
      d.sight id = ⟨[], [], none⟩ := by
    intro id
    rw [hsight]
    exact Sight.prepared_eq_unknown _ _
  refine ⟨?_, fun id hid => ?_, fun id hid => ?_, h.opened, h.nodup, h.answered, fun id hseen => ?_,
    h.known⟩
  · rw [hsight]
    exact h.listening.prepared _
  · rw [hsight]
    exact (h.standing id hid).prepared _
  · rw [hunknown]
    exact h.unknown id hid
  · exact h.seen id (mt (hunknown id).mpr hseen)

/-- Neither does what happens elsewhere, as long as no number is taken back. -/
theorem elsewhere (h : Tidy issued listener waiting d) {world : σ}
    (hkeeps : ∀ {id}, issued d.world.1 id → issued world id) :
    Tidy issued listener waiting { d with world := (world, d.world.2) } where
  listening := h.listening
  standing := h.standing
  unknown := h.unknown
  opened := h.opened
  nodup := h.nodup
  answered := h.answered
  seen id hseen := hkeeps (h.seen id hseen)
  known id hid := hkeeps (h.known id hid)

/-- The count of closed connections starts anew in every tick. -/
theorem recount (h : Tidy issued listener waiting d) (closed : Nat) :
    Tidy issued listener waiting { d with closed } :=
  ⟨h.listening, h.standing, h.unknown, h.opened, h.nodup, h.answered, h.seen, h.known⟩

theorem pruned (h : Tidy issued listener waiting d) :
    Tidy issued listener waiting { d with selector := d.selector.pruneClosed } := by
  refine h.reselect (fun _ key => key.ready) fun id => ?_
  rw [Poll.Selector.find?_pruneClosed]
  cases hfound : d.selector.keys.find? id with
  | none => rfl
  | some key =>
    rw [Option.filter_some, h.open_of_key hfound]
    rfl

end Tidy

/-! ## Steps -/

namespace Component

/-- Everything stands as it should, and what happened since `d` shows. -/
def Since (issued : σ → StreamId → Prop) (listener : StreamId) (d : Minuted γ σ)
    (selector : Selector Connection) (s : ((List Callback × γ) × Nat) × (σ × Minutes)) : Prop :=
  let d' : Minuted γ σ := ⟨selector, s.1.1, s.1.2, s.2⟩
  Tidy issued listener [] d' ∧ Progress issued d d'

theorem handler_keeps (hp : p.Proper) (hnumbers : host.NumbersAll issued) (listener : StreamId)
    (d : Minuted γ σ) :
    (handler p.noted host.minuted listener).Keeps host.minuted.onSecond
      (Since issued listener d) where
  pruned h := ⟨h.1.pruned, h.2.log, h.2.keeps⟩
  applied polled report h :=
    ⟨h.1.reselect (fun id key => _) fun id => Table.find?_map _ _ id, h.2.log, h.2.keeps⟩
  poll {_ s} entries timeout h := by
    have hkeeps : ∀ {id}, issued s.2.1 id → issued (host.poll entries timeout s.2.1).2 id :=
      hnumbers.keeps (.poll entries timeout s.2.1)
    exact ⟨h.1.elsewhere hkeeps, h.2.log, fun hid => hkeeps (h.2.keeps hid)⟩
  sleep {_ s} time h := by
    have hkeeps : ∀ {id}, issued s.2.1 id → issued (host.sleep time s.2.1) id := hnumbers.slept
    exact ⟨h.1.elsewhere hkeeps, h.2.log, fun hid => hkeeps (h.2.keeps hid)⟩
  ready {sel s} id polled report h := by
    have hids : ∀ id ∈ (sel.applyReadiness polled report).ready, issued s.2.1 id := by
      intro id hid
      apply h.1.seen
      obtain ⟨key, hkey, _⟩ := Option.any_eq_true _ _ |>.mp (List.mem_filter.mp hid).2
      intro hunknown
      have hnone : (sel.applyReadiness polled report).keys.find? id = none :=
        congrArg Sight.key? hunknown
      cases hkey.symm.trans hnone
    obtain ⟨_, htidy, hprogress⟩ := h.1.serveAll hp hnumbers hids
    exact ⟨htidy, h.2.trans hprogress⟩
  timeout {sel s} id h := by
    have hids : ∀ id ∈ sel.keys.keys.filter (· ≠ listener), id ≠ listener ∧ issued s.2.1 id := by
      intro id hid
      obtain ⟨hmem, hne⟩ := List.mem_filter.mp hid
      refine ⟨of_decide_eq_true hne, h.1.seen id fun hunknown => ?_⟩
      have hnone : sel.keys.find? id = none := congrArg Sight.key? hunknown
      exact Table.find?_eq_none_iff.mp hnone hmem
    obtain ⟨htidy, hprogress⟩ := h.1.beats hp hnumbers hids
    exact ⟨htidy, h.2.trans hprogress⟩

/-- A component that serves. -/
structure Underway (issued : σ → StreamId → Prop) (v : Serving (List Callback × γ))
    (s : σ × Minutes) (f : Front) (o : Observed Connection) : Prop where
  front : v.front = some f
  observed : f.reactor.observed = [o]
  id : o.id = f.selector
  tidy : Tidy issued f.listener [] ⟨o.selector, v.component, 0, s⟩

theorem finished_iff (closed streams : Nat) :
    (if 0 < closed then Step.finished else if 1 < streams then .busy else .idle) = .finished ↔
      0 < closed := by
  by_cases h : 0 < closed
  · rw [if_pos h]
    exact iff_of_true rfl h
  · rw [if_neg h]
    refine iff_of_false ?_ h
    split
    · exact nofun
    · exact nofun

/-- A step leaves all in order.  It finishes a task exactly if it said goodbye to
a connection. -/
theorem Underway.step (hp : p.Proper) (hnumbers : host.NumbersAll issued)
    {v : Serving (List Callback × γ)} {s : σ × Minutes} {f : Front} {o : Observed Connection}
    (h : Underway issued v s f o) :
    let out := step p.noted host.minuted v s
    (∃ f' o', Underway issued out.2.1 out.2.2 f' o') ∧
      ∃ news, out.2.1.component.1 = v.component.1 ++ news ∧
        ∀ outcome, out.1 = .ok outcome →
          (outcome = .finished ↔ ∃ n ∈ news, n.cue = .closed) := by
  let d : Minuted γ σ := ⟨o.selector, v.component, 0, s⟩
  have hstart : Since issued f.listener d o.selector ((v.component, 0), s) := ⟨h.tidy, .refl d⟩
  obtain ⟨o', hobserved, hid, htidy, ⟨news, hlog, hclosed⟩, _⟩ :=
    Reactor.tick_keeps (handler_keeps hp hnumbers f.listener d) h.observed hstart
  unfold Component.step
  rw [h.front]
  dsimp only
  generalize f.reactor.tick host.minuted.onSecond (handler p.noted host.minuted f.listener)
    ((v.component, 0), s) = out at hobserved htidy hlog hclosed ⊢
  obtain ⟨result, reactor, ⟨component, closed⟩, s'⟩ := out
  dsimp only at hobserved htidy hlog hclosed ⊢
  have hunderway : Underway issued
      { v with component, front := some { f with reactor } } s' { f with reactor } o' :=
    ⟨rfl, hobserved, hid.trans h.id, htidy.recount 0⟩
  cases result with
  | error e => exact ⟨⟨_, o', hunderway⟩, news, hlog, nofun⟩
  | ok count =>
    refine ⟨⟨_, o', hunderway⟩, news, hlog, fun outcome houtcome => ?_⟩
    have hcount : closed = 0 + news.countP (·.cue = .closed) := hclosed
    rw [← Except.ok.inj houtcome, finished_iff, hcount, Nat.zero_add, List.countP_pos_iff]
    simp only [decide_eq_true_eq]

/-- The states of a component from its start on. -/
inductive Run (p : Component γ) (host : Host σ) (issued : σ → StreamId → Prop) :
    Serving (List Callback × γ) → σ × Minutes → Prop where
  /-- The component starts to serve, and its minutes begin. -/
  | start {c c' : Context} {v v' : Serving (List Callback × γ)} {s : σ} {s' : σ × Minutes} :
      v.component.1 = [] → start host.minuted c v (s, {}) = (.ok (), c', v', s') →
        Run p host issued v' s'
  | step {v : Serving (List Callback × γ)} {s : σ × Minutes} : Run p host issued v s →
      Run p host issued (step p.noted host.minuted v s).2.1 (step p.noted host.minuted v s).2.2
  /-- Something happens elsewhere.  No number of a stream is taken back. -/
  | outside {v : Serving (List Callback × γ)} {s : σ × Minutes} (world : σ) :
      (∀ id, issued s.1 id → issued world id) → Run p host issued v s →
        Run p host issued v (world, s.2)

/-- A desk that has only begun to listen is in order. -/
theorem tidy_listening {listener : StreamId} {component : List Callback × γ} {s : σ × Minutes}
    (hissued : issued s.1 listener) (hsilent : component.1 = []) (hminutes : s.2 = {}) :
    let key : Key Connection :=
      { stream := { id := listener, kind := .listener }, interest := .accepting }
    Tidy issued listener [] ⟨⟨Table.empty.insert listener key, []⟩, component, 0, s⟩ := by
  intro key
  let d : Minuted γ σ := ⟨⟨Table.empty.insert listener key, []⟩, component, 0, s⟩
  have hsight : ∀ id, d.sight id = ⟨[], [], if id = listener then some key else none⟩ := by
    intro id
    unfold Desk.sight
    rw [hsilent, hminutes, Table.find?_insert]
    rfl
  refine ⟨?_, fun id hid => ?_, fun _ hid => absurd hid List.not_mem_nil, ?_, ?_, ?_,
    fun id hseen => ?_, fun id hid => ?_⟩
  · rw [hsight, if_pos rfl]
    exact ⟨rfl, key, rfl, rfl, rfl⟩
  · rw [hsight, if_neg hid]
    exact .unknown
  · rw [hsilent, hminutes]
    rfl
  · rw [hminutes]
    exact List.nodup_nil
  · rw [hsilent]
    trivial
  · by_cases hid : id = listener
    · rw [hid]
      exact hissued
    · exact absurd ((hsight id).trans (by rw [if_neg hid])) hseen
  · rw [hminutes] at hid
    cases hid

theorem underway_start (hnumbers : host.NumbersAll issued) {c c' : Context}
    {v v' : Serving (List Callback × γ)} {s : σ} {s' : σ × Minutes} (hsilent : v.component.1 = [])
    (hstart : start host.minuted c v (s, {}) = (.ok (), c', v', s')) :
    ∃ f o, Underway issued v' s' f o := by
  unfold Component.start at hstart
  dsimp only at hstart
  split at hstart
  · cases hstart
  · split at hstart
    · cases hstart
    · rename_i listener address world hbind
      obtain ⟨hissued, hminutes⟩ : issued world.1 listener ∧ world.2 = {} := by
        rcases hout : host.bind v.address true s with ⟨result, world'⟩
        have hminuted : host.minuted.bind v.address true (s, {}) = (result, world', {}) := by
          simp only [Host.minuted, hout]
        rw [hminuted] at hbind
        cases hbind
        exact ⟨hnumbers.bound hout, rfl⟩
      cases hstart
      exact ⟨_, _, rfl, rfl, rfl, tidy_listening hissued hsilent hminutes⟩

/-- Throughout a run all is in order. -/
theorem Run.underway (hp : p.Proper) (hnumbers : host.NumbersAll issued)
    {v : Serving (List Callback × γ)} {s : σ × Minutes} (h : Run p host issued v s) :
    ∃ f o, Underway issued v s f o := by
  induction h with
  | start hsilent hstart => exact underway_start hnumbers hsilent hstart
  | step _ ih =>
    obtain ⟨f, o, h⟩ := ih
    exact (h.step hp hnumbers).1
  | outside world hkeeps _ ih =>
    obtain ⟨f, o, h⟩ := ih
    exact ⟨f, o, h.front, h.observed, h.id, h.tidy.elsewhere (hkeeps _)⟩

/-! ## A rehearsal -/

theorem rehearsal_numbersAll :
    Bus.Broker.rehearsal.NumbersAll fun s id => id.val.toNat < s.1 where
  toNumbers := Bus.Broker.rehearsal_numbers
  bound := by
    rintro ⟨n, script⟩ _ _ _ _ _ hbind
    cases hbind
    have hid : (UInt64.ofNat n).toNat ≤ n := by
      rw [UInt64.toNat_ofNat']
      exact Nat.mod_le _ _
    exact Nat.lt_succ_of_le hid
  slept h := h

/-- The worker of a rehearsal. -/
def understudy : Context where
  record := .create 0 ⟨2⟩ "rehearsal" 0
  link := { uid := ⟨2⟩, stream := ⟨7⟩ }

/-- A component before a rehearsal. -/
def unrehearsed (g : γ) : Serving (List Callback × γ) where
  component := ([], g)
  address := .v4 ⟨127, 0, 0, 1⟩ 4000

/-- A component that has started in a rehearsal, with its world. -/
def rehearsed (g : γ) : Serving (List Callback × γ) × ((Nat × Poll.Script) × Minutes) :=
  (start Bus.Broker.rehearsal.minuted understudy (unrehearsed g) ((1, {}), {})).2.2

theorem run_rehearsed (p : Component γ) (g : γ) :
    Run p Bus.Broker.rehearsal (fun s id => id.val.toNat < s.1) (rehearsed g).1 (rehearsed g).2 :=
  .start (c := understudy) (v := unrehearsed g) (s := (1, {})) rfl rfl

/-- The streams of a rehearsal get another script. -/
theorem Run.staged {p : Component γ} {v : Serving (List Callback × γ)}
    {s : (Nat × Poll.Script) × Minutes}
    (h : Run p Bus.Broker.rehearsal (fun s id => id.val.toNat < s.1) v s) (script : Poll.Script) :
    Run p Bus.Broker.rehearsal (fun s id => id.val.toNat < s.1) v ((s.1.1, script), s.2) :=
  .outside _ (fun _ hid => hid) h

end Component

end Worker

end Supervisor
