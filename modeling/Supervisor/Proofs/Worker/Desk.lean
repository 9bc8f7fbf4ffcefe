import Supervisor.Proofs.Poll.Selector
import Supervisor.Proofs.Worker.Minutes

/-!
# What a component does with one connection

Whatever is ready, and whenever a heartbeat is due, a component deals with one
connection at a time.  This module follows it through one such visit.

* A `Sight` is all that there is about a stream: the callbacks, what happened on
  the stream, and its key.
* `Standing` is the invariant of a sight.  It has one constructor for each stage
  of the life of a connection.
* A `Visit` is what the rest of a desk sees of a visit, namely nothing but the
  callbacks.
* `inHand_read`, `settled_settle` and `enroll_connection` follow the steps of a
  visit.  A connection is in hand (`InHand`) from its first callback in a visit
  until it is settled.
-/

namespace Supervisor.Worker

open Poll (Happening Healthy Host Key Minutes Over tookOf)
open Wire (Bytes)

/-! ## The life of a connection -/

/-- A stream on which a connection was closed, after `bytes` had been queued for
it: all of them were taken, or the stream is over and took the first of them. -/
structure Spent (bytes : Bytes) (happenings : List Happening) : Prop where
  taken : tookOf happenings <+: bytes
  reason : Over happenings ∨ Healthy happenings ∧ tookOf happenings = bytes

/-- All that there is about a stream. -/
structure Sight where
  calls : List Callback
  traffic : List Happening
  key? : Option (Key Connection)

/-- A connection that is being dealt with. -/
structure InHand (id : StreamId) (sight : Sight) (key : Key Connection) (c : Connection) :
    Prop where
  found : sight.key? = some key
  stream : key.stream = { id, kind := .socket }
  reading : key.interest.read = true
  attached : key.attachment = some c
  named : c.id = id
  begun : Begun sight.calls
  /-- What was queued has been taken or still waits. -/
  account : tookOf sight.traffic ++ c.outbound = written sight.calls

/-- The stages of a connection, as far as they show between two visits. -/
inductive Standing (id : StreamId) : Sight → Prop where
  | unknown : Standing id ⟨[], [], none⟩
  | serving {sight : Sight} {key : Key Connection} {c : Connection} : InHand id sight key c →
      Healthy sight.traffic → (key.interest.write = true ↔ c.outbound ≠ []) → Standing id sight
  | closed {calls : List Callback} {last : Callback} {happenings : List Happening} : Begun calls →
      last.cue = .closed → last.wrote = [] → Spent (written calls) happenings →
      Standing id ⟨calls ++ [last], happenings, none⟩

theorem Standing.none_or_inHand {id : StreamId} {sight : Sight} (h : Standing id sight) :
    sight.key? = none ∨ ∃ key c, InHand id sight key c ∧ Healthy sight.traffic := by
  cases h with
  | unknown => exact Or.inl rfl
  | serving hin hhealthy _ => exact Or.inr ⟨_, _, hin, hhealthy⟩
  | closed => exact Or.inl rfl

/-! ## Visits -/

/-- A desk with minutes. -/
abbrev Minuted (γ σ : Type) := Desk (List Callback × γ) (σ × Minutes)

variable {γ σ : Type} {host : Host σ} {id : StreamId}

/-- All that there is about a stream at a desk. -/
def Desk.sight (d : Minuted γ σ) (id : StreamId) : Sight where
  calls := callsOf id d.component.1
  traffic := d.world.2.of id
  key? := d.selector.keys.find? id

/-- The stages of a connection, as they show at a desk. -/
theorem Standing.stages {d : Minuted γ σ} (h : Standing id (d.sight id)) :
    (callsOf id d.component.1 = [] ∧ d.selector.keys.find? id = none) ∨
      (∃ key c, InHand id (d.sight id) key c ∧ Healthy (d.world.2.of id) ∧
        (key.interest.write = true ↔ c.outbound ≠ [])) ∨
      ∃ calls last, callsOf id d.component.1 = calls ++ [last] ∧
        d.selector.keys.find? id = none ∧ Begun calls ∧ last.cue = .closed ∧ last.wrote = [] ∧
        Spent (written calls) (d.world.2.of id) := by
  generalize hsight : d.sight id = sight at h
  have hcalls : callsOf id d.component.1 = sight.calls := congrArg Sight.calls hsight
  have htraffic : d.world.2.of id = sight.traffic := congrArg Sight.traffic hsight
  have hkey : d.selector.keys.find? id = sight.key? := congrArg Sight.key? hsight
  rw [hcalls, htraffic, hkey]
  cases h with
  | unknown => exact Or.inl ⟨rfl, rfl⟩
  | serving hin hhealthy hwriting => exact Or.inr (Or.inl ⟨_, _, hin, hhealthy, hwriting⟩)
  | closed hbegun hlast hsilent hspent =>
    exact Or.inr (Or.inr ⟨_, _, rfl, rfl, hbegun, hlast, hsilent, hspent⟩)

/-- What others see of a visit to a connection. -/
structure Visit (host : Host σ) (id : StreamId) (d d' : Minuted γ σ) (news : List Callback) :
    Prop where
  log : d'.component.1 = d.component.1 ++ news
  about : ∀ n ∈ news, n.id = id
  answered : Answered news
  closed : d'.closed = d.closed + news.countP (·.cue = .closed)
  accepted : d'.world.2.accepted = d.world.2.accepted
  calls : host.Calls d.world.1 d'.world.1
  traffic : ∀ id' ≠ id, d'.world.2.of id' = d.world.2.of id'
  keys : ∀ id' ≠ id, d'.selector.keys.find? id' = d.selector.keys.find? id'

namespace Visit

variable {d d' d'' : Minuted γ σ} {news news' : List Callback}

theorem refl (d : Minuted γ σ) : Visit host id d d [] where
  log := (List.append_nil _).symm
  about _ hn := nomatch hn
  answered := trivial
  closed := rfl
  accepted := rfl
  calls := .refl
  traffic _ _ := rfl
  keys _ _ := rfl

theorem trans (h : Visit host id d d' news) (h' : Visit host id d' d'' news') :
    Visit host id d d'' (news ++ news') where
  log := by rw [h'.log, h.log, List.append_assoc]
  about n hn := by
    rcases List.mem_append.mp hn with hn | hn
    · exact h.about n hn
    · exact h'.about n hn
  answered := h.answered.append h'.answered
  closed := by rw [h'.closed, h.closed, List.countP_append, Nat.add_assoc]
  accepted := h'.accepted.trans h.accepted
  calls := h.calls.trans h'.calls
  traffic id' hid := (h'.traffic id' hid).trans (h.traffic id' hid)
  keys id' hid := (h'.keys id' hid).trans (h.keys id' hid)

/-- A visit does not show anywhere else. -/
theorem sight_of_ne (h : Visit host id d d' news) {id' : StreamId} (hid : id' ≠ id) :
    d'.sight id' = d.sight id' := by
  unfold Desk.sight
  rw [h.log, callsOf_append, callsOf_eq_nil h.about hid, List.append_nil, h.traffic id' hid,
    h.keys id' hid]

theorem calls_sight (h : Visit host id d d' news) :
    (d'.sight id).calls = (d.sight id).calls ++ news := by
  show callsOf id d'.component.1 = _
  rw [h.log, callsOf_append, callsOf_eq_self h.about]
  rfl

end Visit

namespace Desk

variable {p : Component γ} {d : Minuted γ σ} {key : Key Connection} {c : Connection}

/-! ## Callbacks -/

theorem find?_setConnection {γ σ : Type} (d : Desk γ σ) (c : Connection) (id : StreamId) :
    (d.setConnection c).selector.keys.find? id =
      if id = c.id then (d.selector.keys.find? id).map fun key => { key with attachment := some c }
      else d.selector.keys.find? id :=
  Table.find?_modify _ _ _ _

/-- After some callbacks about a connection in hand, and whatever happened on
its stream in the meantime, it is still in hand. -/
theorem inHand_setConnection (host : Host σ) (world : σ × Minutes)
    (h : InHand id (d.sight id) key c) {c' : Connection} {component : List Callback × γ}
    {news : List Callback}
    {happenings : List Happening} {waiting : Bytes} (htalks : Talks { c with outbound := waiting }
      c' d.component.1 component.1 news) (hmidway : ∀ n ∈ news, n.Midway)
    (hcalls : host.Calls d.world.1 world.1) (hminutes : world.2 = d.world.2.note id happenings)
    (haccount : tookOf happenings ++ waiting = c.outbound) :
    let d' := { d with component, world }.setConnection c'
    Visit host id d d' news ∧ InHand id (d'.sight id) { key with attachment := some c' } c' ∧
      (d'.sight id).traffic = (d.sight id).traffic ++ happenings := by
  intro d'
  have hname : c'.id = id := htalks.id.trans h.named
  have htraffic : (d'.sight id).traffic = (d.sight id).traffic ++ happenings := by
    show world.2.of id = _
    rw [hminutes, Minutes.of_note, if_pos rfl]
    rfl
  have hvisit : Visit host id d d' news := {
    log := htalks.log
    about := fun n hn => (htalks.about n hn).trans h.named
    answered := htalks.answered
    closed := by
      rw [List.countP_eq_zero.mpr fun n hn => by simpa using (hmidway n hn).2]
      rfl
    accepted := (congrArg Minutes.accepted hminutes).trans rfl
    calls := hcalls
    traffic := fun id' hid => by
      show world.2.of id' = _
      rw [hminutes, Minutes.of_note, if_neg (Ne.symm hid), List.append_nil]
    keys := fun id' hid => by
      rw [find?_setConnection, if_neg fun hsame => hid (hsame.trans hname)] }
  refine ⟨hvisit, ?_, htraffic⟩
  constructor
  case found =>
    show d'.selector.keys.find? id = _
    rw [find?_setConnection, if_pos hname.symm]
    exact congrArg (Option.map _) h.found
  case stream => exact h.stream
  case reading => exact h.reading
  case attached => rfl
  case named => exact hname
  case begun =>
    rw [hvisit.calls_sight]
    exact h.begun.append hmidway
  case account =>
    rw [hvisit.calls_sight, htraffic, Poll.tookOf_append, written_append, ← h.account,
      htalks.outbound, ← haccount]
    simp only [List.append_assoc]

/-! ## The end of a visit -/

/-- At the end of a visit nothing but the callbacks is left of it, and the
connection stands. -/
structure Settled (host : Host σ) (id : StreamId) (d d' : Minuted γ σ) (news : List Callback) :
    Prop where
  visit : Visit host id d d' news
  stands : Standing id (d'.sight id)

theorem Settled.after {d d' d'' : Minuted γ σ} {news news' : List Callback}
    (h : Settled host id d' d'' news') (hbefore : Visit host id d d' news) :
    Settled host id d d'' (news ++ news') :=
  ⟨hbefore.trans h.visit, h.stands⟩

theorem find?_discard {α : Type} (sel : Poll.Selector α) (id : StreamId) {σ : Type}
    (host : Host σ) (s : σ) (id' : StreamId) :
    (sel.discard id host s).1.keys.find? id' =
      if id' = id then none else sel.keys.find? id' := by
  rw [Poll.Selector.discard_fst]
  exact Table.find?_erase _ _ _

theorem minutes_discard {α : Type} (sel : Poll.Selector α) (id : StreamId) (host : Host σ)
    (s : σ × Minutes) :
    (sel.discard id host.minuted s).2.2 = s.2 ∧
      host.Calls s.1 (sel.discard id host.minuted s).2.1 := by
  unfold Poll.Selector.discard
  split
  · exact ⟨rfl, .refl⟩
  · dsimp only
    split
    · exact ⟨rfl, .refl⟩
    · exact ⟨rfl, .single (.close id s.1)⟩

/-- Whoever is said goodbye to is closed. -/
theorem settled_finish (p : Component γ) (host : Host σ) (h : InHand id (d.sight id) key c)
    (hspent : Spent (written (d.sight id).calls) (d.sight id).traffic) :
    Settled host id d (d.finish p.noted host.minuted c) [⟨id, .closed, [], none⟩] := by
  obtain ⟨hminutes, hcalls⟩ := minutes_discard d.selector c.id host d.world
  let d' := d.finish p.noted host.minuted c
  have hvisit : Visit host id d d' [⟨id, .closed, [], none⟩] := {
    log := by
      rw [← h.named]
      rfl
    about := fun n hn => by
      cases List.mem_singleton.mp hn
      rfl
    answered := answered_singleton rfl
    closed := rfl
    accepted := congrArg Minutes.accepted hminutes
    calls := hcalls
    traffic := fun id' _ => congrArg (Minutes.of · id') hminutes
    keys := fun id' hid => by
      show (d.selector.discard c.id host.minuted d.world).1.keys.find? id' = _
      rw [find?_discard, if_neg fun hsame => hid (hsame.trans h.named)] }
  have hsight : d'.sight id =
      ⟨(d.sight id).calls ++ [⟨id, .closed, [], none⟩], (d.sight id).traffic, none⟩ := by
    have hkey : d'.selector.keys.find? id = none := by
      show (d.selector.discard c.id host.minuted d.world).1.keys.find? id = _
      rw [find?_discard, if_pos h.named.symm]
    have htraffic : d'.world.2.of id = d.world.2.of id := congrArg (Minutes.of · id) hminutes
    rw [← hvisit.calls_sight]
    unfold sight
    rw [hkey, htraffic]
  refine ⟨hvisit, ?_⟩
  rw [hsight]
  exact .closed h.begun rfl rfl hspent

/-- The key of a connection of which readiness for writing is of interest
exactly while bytes wait. -/
structure Adjusted (key key' : Key Connection) (c : Connection) : Prop where
  stream : key'.stream = key.stream
  attached : key'.attachment = key.attachment
  reading : key'.interest.read = true
  writing : key'.interest.write = true ↔ c.outbound ≠ []

theorem adjust_cases {γ σ : Type} (d : Desk γ σ) (hkey : d.selector.keys.find? c.id = some key)
    (hread : key.interest.read = true) :
    ∃ selector key', d.adjust c key.interest.write = { d with selector } ∧
      (∀ id ≠ c.id, selector.keys.find? id = d.selector.keys.find? id) ∧
      selector.keys.find? c.id = some key' ∧ Adjusted key key' c := by
  unfold adjust
  split
  · rename_i hmissing
    obtain ⟨hwaiting, _⟩ := Bool.and_eq_true_iff.mp hmissing
    have hregistered : d.selector.reregister c.id .writing = .ok { d.selector with
        keys := d.selector.keys.insert c.id
          { key with interest := key.interest ∪ .writing } } := by
      unfold Poll.Selector.reregister
      rw [hkey]
      rfl
    rw [hregistered]
    refine ⟨_, _, rfl, fun id hid => ?_,
      (Table.find?_insert _ _ _ _).trans (if_pos rfl), rfl, rfl, ?_, ?_⟩
    · rw [Table.find?_insert, if_neg hid]
    · show (key.interest.read || false) = true
      rw [hread, Bool.or_false]
    · show (key.interest.write || true) = true ↔ _
      simpa using hwaiting
  · split
    · rename_i hidle
      obtain ⟨hempty, _⟩ := Bool.and_eq_true_iff.mp hidle
      have hleft : (key.interest \ .writing).isEmpty = false := by
        rw [Bool.eq_false_iff]
        intro hnone
        have hnothing : (key.interest.read && true) = false :=
          congrArg Poll.Ops.read (Poll.Ops.isEmpty_iff.mp hnone)
        rw [hread] at hnothing
        cases hnothing
      have hregistered : d.selector.unregister c.id .writing = .ok ({ d.selector with
          keys := d.selector.keys.insert c.id { key with
            interest := key.interest \ .writing,
            ready := key.ready ∩ (key.interest \ .writing) } }, none) := by
        unfold Poll.Selector.unregister
        rw [hkey]
        dsimp only
        rw [hleft]
        rfl
      rw [hregistered]
      refine ⟨_, _, rfl, fun id hid => ?_,
        (Table.find?_insert _ _ _ _).trans (if_pos rfl), rfl, rfl, ?_, ?_⟩
      · rw [Table.find?_insert, if_neg hid]
      · show (key.interest.read && true) = true
        rw [hread, Bool.and_true]
      · show (key.interest.write && false) = true ↔ _
        simpa using hempty
    · rename_i hwaiting hidle
      refine ⟨_, key, rfl, fun _ _ => rfl, hkey, rfl, rfl, hread, ?_⟩
      cases hwrite : key.interest.write <;> simp_all

/-- Adjusting is no more than a change of the interest in one stream. -/
theorem settled_adjust (host : Host σ) (h : InHand id (d.sight id) key c)
    (hhealthy : Healthy (d.sight id).traffic) :
    Settled host id d (d.adjust c key.interest.write) [] := by
  have hfound : d.selector.keys.find? c.id = some key := by
    rw [h.named]
    exact h.found
  obtain ⟨selector, key', hadjust, hothers, hkey', hadjusted⟩ := adjust_cases d hfound h.reading
  rw [hadjust]
  rw [h.named] at hothers hkey'
  refine ⟨{ Visit.refl d with keys := hothers }, ?_⟩
  have hin : InHand id (Desk.sight { d with selector } id) key' c := {
    found := hkey'
    stream := hadjusted.stream.trans h.stream
    reading := hadjusted.reading
    attached := hadjusted.attached.trans h.attached
    named := h.named
    begun := h.begun
    account := h.account }
  exact .serving hin hhealthy hadjusted.writing

theorem settle_eq {γ σ : Type} (p : Component γ) (host : Host σ) {d : Desk γ σ}
    (hfound : d.selector.keys.find? id = some key) (hattached : key.attachment = some c)
    (stays : Bool) :
    d.settle p host id stays =
      if stays = true then
        let out := key.stream.write c.outbound host d.world
        let c' : Connection := { c with outbound := out.1.rest }
        match out.1.failure with
        | some failure =>
          let told := p.onError c' (.io failure "client write failed") d.component
          ({ d with component := told.2, world := out.2 }.setConnection told.1).finish p host told.1
        | none =>
          let d' := { d with world := out.2 }.setConnection c'
          if c'.closing && c'.outbound.isEmpty then d'.finish p host c'
          else d'.adjust c' key.interest.write
      else d.finish p host c := by
  unfold settle
  rw [hfound]
  simp only [hattached]
  cases stays with
  | false => rfl
  | true => rfl

/-- Whatever the stream of a connection takes of what waits, afterwards the
connection is closed, or it stays and readiness for writing is of interest
exactly while bytes wait. -/
theorem settled_settle (hp : p.Proper) (h : InHand id (d.sight id) key c) {stays : Bool}
    (hhealth : stays = true ∧ Healthy (d.sight id).traffic ∨
      stays = false ∧ Over (d.sight id).traffic) :
    ∃ news, Settled host id d (d.settle p.noted host.minuted id stays) news ∧
      ∀ n ∈ news, n.cue ≠ .opened := by
  have hclosed : ∀ n ∈ [(⟨id, .closed, [], none⟩ : Callback)], n.cue ≠ .opened := by
    intro n hn
    cases List.mem_singleton.mp hn
    exact nofun
  rw [settle_eq _ _ h.found h.attached]
  rcases hhealth with ⟨hstays, hhealthy⟩ | ⟨hgoes, hover⟩
  · rw [if_pos hstays, h.stream]
    obtain ⟨hs, hminutes, haccount, hcalls, hwell, hill⟩ :=
      Poll.write_minuted id c.outbound host d.world
    generalize ({ id, kind := .socket } : Poll.Stream).write c.outbound host.minuted d.world = out
      at hminutes haccount hcalls hwell hill ⊢
    obtain ⟨⟨rest, failure?⟩, world⟩ := out
    dsimp only at hminutes haccount hcalls hwell hill ⊢
    cases failure? with
    | some failure =>
      obtain ⟨news, htalks, hmidway⟩ := talks_onError hp { c with outbound := rest }
        (.io failure "client write failed") d.component
      obtain ⟨hvisit, hin, htraffic⟩ :=
        inHand_setConnection host _ h htalks hmidway hcalls hminutes haccount
      have hover := htraffic ▸ hhealthy.over (hill failure rfl)
      have hfinish := settled_finish p host hin ⟨⟨_, hin.account⟩, Or.inl hover⟩
      have hunopened : ∀ n ∈ news, n.cue ≠ .opened := fun n hn => (hmidway n hn).1
      exact ⟨_, hfinish.after hvisit, List.forall_mem_append.mpr ⟨hunopened, hclosed⟩⟩
    | none =>
      let c' : Connection := { c with outbound := rest }
      have htalks : Talks c' c' d.component.1 d.component.1 [] := .refl c' _
      obtain ⟨hvisit, hin, htraffic⟩ := inHand_setConnection host _ h htalks
        (fun _ hn => nomatch hn) hcalls hminutes haccount
      have hhealthy' := htraffic ▸ hhealthy.append (hwell rfl)
      by_cases hdone : (c'.closing && c'.outbound.isEmpty) = true
      · have hempty : c'.outbound = [] := List.isEmpty_iff.mp (Bool.and_eq_true_iff.mp hdone).2
        have hall := hin.account
        rw [hempty, List.append_nil] at hall
        have hfinish := settled_finish p host hin
          ⟨hall ▸ List.prefix_rfl, Or.inr ⟨hhealthy', hall⟩⟩
        dsimp only
        rw [if_pos hdone]
        exact ⟨_, hfinish.after hvisit, hclosed⟩
      · have hadjust := settled_adjust host hin hhealthy'
        dsimp only
        rw [if_neg hdone]
        exact ⟨_, hadjust.after hvisit, fun _ hn => absurd hn List.not_mem_nil⟩
  · rw [if_neg (Bool.eq_false_iff.mp hgoes)]
    exact ⟨_, settled_finish p host h ⟨⟨_, h.account⟩, Or.inl hover⟩, hclosed⟩

/-! ## Reading and heartbeats -/

theorem read_eq {γ σ : Type} (p : Component γ) (host : Host σ) {d : Desk γ σ}
    (hfound : d.selector.keys.find? id = some key) (hattached : key.attachment = some c)
    (hopen : key.stream.transferFailure? = none) :
    d.read p host id =
      let out := hear p (host.incoming id d.world) c d.component
      let d' := { d with component := out.2.2, world := host.consume id out.1.1 d.world }
      (out.1.2, d'.setConnection out.2.1) := by
  unfold read
  rw [hfound]
  simp only [hattached, hopen]

/-- A connection that is read stays in hand.  It is to stay exactly if its
stream is not over. -/
theorem inHand_read (hp : p.Proper) (host : Host σ) (h : InHand id (d.sight id) key c)
    (hhealthy : Healthy (d.sight id).traffic) :
    let out := d.read p.noted host.minuted id
    ∃ news key' c', Visit host id d out.2 news ∧ (∀ n ∈ news, n.Midway) ∧
      InHand id (out.2.sight id) key' c' ∧
      (out.1 = true ∧ Healthy (out.2.sight id).traffic ∨
        out.1 = false ∧ Over (out.2.sight id).traffic) := by
  have hopen : key.stream.transferFailure? = none := by
    rw [h.stream]
    rfl
  obtain ⟨⟨news, htalks, hmidway⟩, hcalls⟩ :=
    talks_hear hp (host.minuted.incoming id d.world) c d.component
  rw [read_eq p.noted host.minuted h.found h.attached hopen]
  generalize hear p.noted (host.minuted.incoming id d.world) c d.component = out
    at htalks hcalls ⊢
  obtain ⟨⟨calls, stays⟩, c', component⟩ := out
  dsimp only at htalks hcalls ⊢
  have hconsume : host.Calls d.world.1 (host.consume id calls d.world.1) :=
    .single (.consume id calls d.world.1)
  have haccount : tookOf (((host.incoming id d.world.1).take calls).filterMap
      Poll.happening?) = [] := by
    rcases hcalls with ⟨_, hnone⟩ | ⟨_, last, rfl | rfl, hsome⟩
    · exact congrArg tookOf hnone
    · exact congrArg tookOf hsome
    · exact congrArg tookOf hsome
  obtain ⟨hvisit, hin, htraffic⟩ := inHand_setConnection host
    (host.minuted.consume id calls d.world) h htalks hmidway hconsume rfl
    (by rw [haccount, List.nil_append])
  refine ⟨news, _, c', hvisit, hmidway, hin, ?_⟩
  rw [htraffic]
  rcases hcalls with ⟨hstays, hnone⟩ | ⟨hgoes, last, hlast, hsome⟩
  · exact Or.inl ⟨hstays, hhealthy.append (hnone ▸ Poll.healthy_nil)⟩
  · exact Or.inr ⟨hgoes, hhealthy.over (hsome ▸ .intro Poll.healthy_nil hlast)⟩

theorem settle_of_none {γ σ : Type} (p : Component γ) (host : Host σ) {d : Desk γ σ}
    (hnone : d.selector.keys.find? id = none) (stays : Bool) : d.settle p host id stays = d := by
  unfold settle
  rw [hnone]

/-- A stream that is ready is read if that is what it is ready for, and
settled. -/
theorem settled_ready (hp : p.Proper) (host : Host σ) (h : Standing id (d.sight id)) :
    let readable := (d.selector.keys.find? id).any (·.ready.read)
    let out := if readable then d.read p.noted host.minuted id else (true, d)
    ∃ news, Settled host id d (out.2.settle p.noted host.minuted id out.1) news ∧
      ∀ n ∈ news, n.cue ≠ .opened := by
  intro readable out
  rcases h.none_or_inHand with hnone | ⟨key, c, hin, hhealthy⟩
  · have hout : out = (true, d) := by
      have hnone : d.selector.keys.find? id = none := hnone
      simp only [out, readable, hnone]
      rfl
    rw [hout, settle_of_none _ _ hnone]
    exact ⟨[], ⟨.refl d, h⟩, fun _ hn => nomatch hn⟩
  · by_cases hreadable : readable = true
    · have hout : out = d.read p.noted host.minuted id := if_pos hreadable
      obtain ⟨news, key', c', hvisit, hmidway, hin', hhealth⟩ :=
        inHand_read hp host hin hhealthy
      rw [hout]
      obtain ⟨more, hsettled, hunopened⟩ := settled_settle hp hin' hhealth
      refine ⟨news ++ more, hsettled.after hvisit, fun n hn => ?_⟩
      rcases List.mem_append.mp hn with hn | hn
      · exact (hmidway n hn).1
      · exact hunopened n hn
    · have hout : out = (true, d) := if_neg hreadable
      rw [hout]
      exact settled_settle hp hin (Or.inl ⟨rfl, hhealthy⟩)

theorem settled_beat (hp : p.Proper) (host : Host σ) (h : Standing id (d.sight id)) :
    ∃ news, Settled host id d (d.beat p.noted host.minuted id) news ∧
      ∀ n ∈ news, n.cue ≠ .opened := by
  unfold beat
  rcases h.none_or_inHand with hnone | ⟨key, c, hin, hhealthy⟩
  · have hnone : d.selector.keys.find? id = none := hnone
    rw [hnone]
    dsimp only [Option.bind_none]
    rw [settle_of_none _ _ hnone]
    exact ⟨[], ⟨.refl d, h⟩, fun _ hn => nomatch hn⟩
  · have hfound : d.selector.keys.find? id = some key := hin.found
    rw [hfound, Option.bind_some, hin.attached]
    dsimp only
    obtain ⟨news, htalks, hmidway⟩ := talks_onHeartbeat hp c d.component
    obtain ⟨hvisit, hin', htraffic⟩ := inHand_setConnection host d.world hin
      htalks hmidway .refl (Minutes.note_nil _ id).symm (List.nil_append _)
    have hhealthy' := htraffic.symm ▸ hhealthy.append Poll.healthy_nil
    obtain ⟨more, hsettled, hunopened⟩ := settled_settle hp hin' (Or.inl ⟨rfl, hhealthy'⟩)
    refine ⟨news ++ more, hsettled.after hvisit, fun n hn => ?_⟩
    rcases List.mem_append.mp hn with hn | hn
    · exact (hmidway n hn).1
    · exact hunopened n hn

/-! ## New connections -/

/-- The key that a new connection gets. -/
def newKey (id : StreamId) (c : Connection) : Key Connection :=
  { stream := { id, kind := .socket }, interest := .reading, attachment := some c }

/-- A connection is in hand once it has been opened. -/
theorem inHand_register (host : Host σ) (hunknown : d.sight id = ⟨[], [], none⟩)
    {component : List Callback × γ} {first : Callback} {news : List Callback}
    (htalks : Talks { id } c d.component.1 component.1 (first :: news))
    (hfirst : first.cue = .opened) (hmidway : ∀ n ∈ news, n.Midway) :
    let d' := { d with
      selector := { d.selector with keys := d.selector.keys.insert id (newKey id c) }, component }
    Visit host id d d' (first :: news) ∧ InHand id (d'.sight id) (newKey id c) c ∧
      (d'.sight id).traffic = [] := by
  intro d'
  have hvisit : Visit host id d d' (first :: news) := {
    log := htalks.log
    about := htalks.about
    answered := htalks.answered
    closed := by
      have hnone : (first :: news).countP (·.cue = .closed) = 0 := by
        rw [List.countP_eq_zero]
        intro n hn
        rcases List.mem_cons.mp hn with rfl | hn
        · simp [hfirst]
        · simpa using (hmidway n hn).2
      rw [hnone]
      rfl
    accepted := rfl
    calls := .refl
    traffic := fun _ _ => rfl
    keys := fun id' hid => (Table.find?_insert _ _ _ _).trans (if_neg hid) }
  have hcalls : (d'.sight id).calls = first :: news := by
    rw [hvisit.calls_sight, hunknown]
    rfl
  have htraffic : (d'.sight id).traffic = [] := congrArg Sight.traffic hunknown
  refine ⟨hvisit, ?_, htraffic⟩
  constructor
  case found => exact (Table.find?_insert _ _ _ _).trans (if_pos rfl)
  case stream => rfl
  case reading => rfl
  case attached => rfl
  case named => exact htalks.id
  case begun => exact hcalls ▸ .intro hfirst hmidway
  case account =>
    rw [hcalls, htraffic]
    exact htalks.outbound

theorem settled_register (hp : p.Proper) (host : Host σ) (hunknown : d.sight id = ⟨[], [], none⟩)
    {component : List Callback × γ} {first : Callback} {news : List Callback}
    (htalks : Talks { id } c d.component.1 component.1 (first :: news))
    (hfirst : first.cue = .opened) (hmidway : ∀ n ∈ news, n.Midway) :
    let d' := { d with
      selector := { d.selector with keys := d.selector.keys.insert id (newKey id c) }, component }
    ∃ all, Settled host id d (d'.settle p.noted host.minuted id true) all ∧
      openedOf all = [id] := by
  intro d'
  obtain ⟨hvisit, hin, htraffic⟩ := inHand_register host hunknown htalks hfirst hmidway
  have hhealthy : Healthy (d'.sight id).traffic := htraffic ▸ Poll.healthy_nil
  obtain ⟨more, hsettled, hunopened⟩ := settled_settle hp hin (Or.inl ⟨rfl, hhealthy⟩)
  refine ⟨first :: news ++ more, hsettled.after hvisit, ?_⟩
  have hrest : openedOf news = [] := openedOf_eq_nil fun n hn => (hmidway n hn).1
  have hname : first.id = id := htalks.about first List.mem_cons_self
  rw [openedOf_append, openedOf_eq_nil hunopened, openedOf_cons hfirst, hrest, hname]
  rfl

/-- A connection is opened and settled before the next one. -/
theorem enroll_connection (hp : p.Proper) (host : Host σ) (hunknown : d.sight id = ⟨[], [], none⟩)
    (rest : List Poll.AcceptEvent) :
    ∃ d' news, enroll p.noted host.minuted (.connection id :: rest) d =
        enroll p.noted host.minuted rest d' ∧
      Settled host id d d' news ∧ openedOf news = [id] := by
  have hopens := hp.opens { id } d.component.2
  rcases hout : p.onOpen { id } d.component.2 with ⟨result, c', g⟩
  rw [hout] at hopens
  obtain ⟨news, htalks, hmidway⟩ := talks_answered hp hopens d.component.1 .opened result g
  have hnoted : p.noted.onOpen { id } d.component = (result, c', d.component.1 ++ [⟨id, .opened,
      c'.outbound.drop (Connection.outbound { id }).length, failureOf result⟩], g) := by
    simp only [Component.noted, hout]
  cases result with
  | ok _ =>
    obtain ⟨all, hsettled, hopened⟩ :=
      settled_register hp host hunknown htalks rfl hmidway
    refine ⟨_, all, ?_, hsettled, hopened⟩
    rw [enroll, hnoted]
    rfl
  | error e =>
    obtain ⟨all, hsettled, hopened⟩ :=
      settled_register hp host hunknown htalks.close rfl hmidway
    refine ⟨_, all, ?_, hsettled, hopened⟩
    rw [enroll, hnoted]
    rfl

end Desk

end Supervisor.Worker
