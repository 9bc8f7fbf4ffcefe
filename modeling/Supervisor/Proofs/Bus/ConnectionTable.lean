import Supervisor.Proofs.Bus.Intake
import Supervisor.Proofs.Bus.Routing

/-!
# The table of connections

A connection is noted in three places: the selector has its stream, with a
`Peer`, and it is either among those without a handshake or the connection of
a worker.  `tables_agree` says that these never disagree, whatever the broker
is asked to do and whatever happens on its streams, and that a sweep leaves
live streams only.

* `Act` is one change of a broker, as far as connections are concerned.  Every
  operation is a sequence of acts (`acts_onReady`, `acts_route`).
* `Act.sound` keeps the agreement (`Sound`) in one act.  Only accepting and
  promoting need an argument, as all other acts do no more than lose
  connections.
* `Reachable` are the states after any operations.

A new connection must not get the id of one that is still noted somewhere.
That is what `Numbers` asks of the host.
-/

namespace Supervisor

namespace Poll

variable {α σ : Type}

/-- The connections among some events. -/
def accepted (events : List AcceptEvent) : List StreamId :=
  events.filterMap fun
    | .connection id => some id
    | .failed _ => none

/-- Streams are numbered, and no number is given out twice.  `issued` tells
which ids have been given out. -/
structure Host.Numbers (host : Host σ) (issued : σ → StreamId → Prop) : Prop where
  keeps : ∀ {s s' id}, host.Call s s' → issued s id → issued s' id
  fresh : ∀ {s listener id}, id ∈ accepted (host.accept listener s).1 → ¬ issued s id
  noted : ∀ {s listener id}, id ∈ accepted (host.accept listener s).1 →
    issued (host.accept listener s).2 id
  nodup : ∀ s listener, (accepted (host.accept listener s).1).Nodup

theorem Host.Numbers.calls {host : Host σ} {issued : σ → StreamId → Prop}
    (h : host.Numbers issued) {s s' : σ} (hcalls : host.Calls s s') {id : StreamId}
    (hid : issued s id) : issued s' id := by
  induction hcalls with
  | refl => exact hid
  | tail _ hcall ih => exact h.keeps hcall ih

/-- A stream accepts what its host does, or nothing. -/
theorem Stream.accept_cases (st : Stream) (host : Host σ) (s : σ) :
    st.accept host s = host.accept st.id s ∨
      (accepted (st.accept host s).1 = [] ∧ (st.accept host s).2 = s) := by
  unfold Stream.accept
  split
  · exact Or.inr ⟨rfl, rfl⟩
  · exact Or.inl rfl

namespace Selector

theorem Thins.trans {sel sel' sel'' : Selector α} (h : sel.Thins sel') (h' : sel'.Thins sel'') :
    sel.Thins sel'' := by
  intro id key'' hkey''
  obtain ⟨key', hkey', hstream', hattached'⟩ := h' id key'' hkey''
  obtain ⟨key, hkey, hstream, hattached⟩ := h id key' hkey'
  exact ⟨key, hkey, hstream.trans hstream', hattached.trans hattached'⟩

theorem thins_pruneClosed (sel : Selector α) : sel.Thins sel.pruneClosed := by
  intro id key hkey
  have hfind : sel.pruneClosed.keys.find? id = _ := Table.find?_filter sel.keys _ id
  rw [hfind, Option.filter_eq_some_iff] at hkey
  exact ⟨key, hkey.1, rfl, rfl⟩

theorem thins_applyReadiness (sel : Selector α) (polled : List StreamId)
    (report : StreamId → Readiness) : sel.Thins (sel.applyReadiness polled report) := by
  intro id key' hkey'
  have hfind : (sel.applyReadiness polled report).keys.find? id = _ :=
    Table.find?_map sel.keys _ id
  rw [hfind] at hkey'
  obtain ⟨key, hkey, rfl⟩ := Option.map_eq_some_iff.mp hkey'
  exact ⟨key, hkey, rfl, rfl⟩

theorem thins_closeStream (sel : Selector α) (id : StreamId) : sel.Thins (sel.closeStream id) := by
  intro id' key' hkey'
  have hfind : (sel.closeStream id).keys.find? id' = _ := Table.find?_modify sel.keys id id' _
  rw [hfind] at hkey'
  split at hkey'
  · obtain ⟨key, hkey, rfl⟩ := Option.map_eq_some_iff.mp hkey'
    exact ⟨key, hkey, rfl, rfl⟩
  · exact ⟨key', hkey', rfl, rfl⟩

/-- Whatever a poll reports, the connections stay or are dropped. -/
theorem thins_select (sel : Selector α) (timeout : Option Duration) (host : Host σ) (s : σ) :
    sel.Thins (sel.select timeout host s).2.1 := by
  unfold select
  dsimp only
  split
  · exact thins_pruneClosed sel
  · split
    · exact thins_pruneClosed sel
    · exact thins_pruneClosed sel
    · exact (thins_pruneClosed sel).trans (thins_applyReadiness _ _ _)

theorem calls_select (sel : Selector α) (timeout : Option Duration) (host : Host σ) (s : σ) :
    host.Calls s (sel.select timeout host s).2.2 := by
  unfold select
  dsimp only
  split
  · exact .refl
  · have hpoll : host.Calls s (host.poll sel.pruneClosed.pollEntries timeout s).2 :=
      .single (.poll _ timeout s)
    split
    · rename_i hresult
      rwa [hresult] at hpoll
    · rename_i hresult
      rwa [hresult] at hpoll
    · rename_i hresult
      rwa [hresult] at hpoll

theorem keyed_register {sel sel' : Selector α} {st : Stream} {ops : Ops} {a : Option α}
    (h : sel.register st ops a = .ok sel') (hkeyed : sel.Keyed) : sel'.Keyed := by
  unfold register at h
  split at h
  · cases h
  · cases h
    intro id key hkey
    rw [Table.find?_insert] at hkey
    split at hkey
    · rename_i hid
      cases hkey
      exact hid.symm
    · exact hkeyed id key hkey

end Selector

end Poll

namespace Bus.Broker

open Poll (Host Selector)

variable {σ : Type} {host : Host σ} {b b' b'' : Broker σ}

/-! ## Acts -/

/-- One change of a broker. -/
inductive Act (host : Host σ) : Broker σ → Broker σ → Prop where
  | move {b b' : Broker σ} : Move host b b' → Act host b b'
  /-- The queue or the inbox changes. -/
  | mail (b : Broker σ) (queue : List Queued) (inbox : List Envelope) :
      Act host b { b with queue, inbox }
  | accept (b : Broker σ) : Act host b (b.accept host).2
  /-- A handshake makes a connection the one of a worker. -/
  | promote {b : Broker σ} {id : StreamId} {peer peer' : Peer} {uid : WorkerId} :
      b.peer? id = some peer → peer.uid = none → uid.isServer = false → peer'.uid = some uid →
      Act host b ((b.setPeer id peer').promote host id uid)

/-- Acts, one after another. -/
abbrev Acts (host : Host σ) : Broker σ → Broker σ → Prop :=
  Relation.ReflTransGen (Act host)

theorem Moves.acts (h : Moves host b b') : Acts host b b' :=
  Relation.ReflTransGen.mono (fun _ _ => Act.move) _ _ h

theorem acts_call {world : σ} (h : host.Calls b.world world) : Acts host b { b with world } :=
  .single (.move (.call h))

theorem peer?_promote (b : Broker σ) (id : StreamId) (uid : WorkerId) :
    (b.promote host id uid).peer? id = b.peer? id := by
  unfold promote
  dsimp only
  split
  · rfl
  · split
    · rfl
    · rename_i previous _ hne
      rw [peer?_closeStream, if_neg fun hid => hne hid.symm]
      rfl

theorem acts_greet (host : Host σ) {id : StreamId} {peer : Peer} (hpeer : b.peer? id = some peer) :
    Acts host b (b.greet host id peer).2 ∧
      ∀ peer', (b.greet host id peer).1 = some peer' →
        (b.greet host id peer).2.peer? id = some peer' := by
  rcases greet_cases host b id peer with ⟨h, _⟩ | ⟨h, _⟩ | ⟨uid, length, _, hnone, hserver, h⟩
  · rw [h]
    exact ⟨.refl, fun peer' hpeer' => hpeer.trans hpeer'⟩
  · rw [h]
    exact ⟨.single (.move (.drop b id)), fun _ hpeer' => nomatch hpeer'⟩
  · rw [h]
    refine ⟨.single (.promote hpeer hnone hserver rfl), ?_⟩
    intro peer' hpeer'
    rw [peer?_promote, peer?_setPeer_self hpeer]
    exact hpeer'

theorem acts_takeFrames {id : StreamId} {peer : Peer} (hpeer : b.peer? id = some peer) :
    Acts host b (b.takeFrames host id peer).2 := by
  let queued : Broker σ := { b with queue := b.queue ++ b.fresh host peer }
  let noted := queued.setPeer id { peer with reader := peer.reader.drain.1 }
  have hqueued : Acts host b queued := .single (.mail b _ b.inbox)
  have hnote : Move host queued noted := .note hpeer rfl
  have hnoted : Acts host b noted := hqueued.tail (.move hnote)
  rcases takeFrames_cases host b id peer with ⟨_, h⟩ | ⟨_, h⟩ | ⟨_, h⟩
  · rw [h]
  · rw [h]
    exact hnoted.tail (.move (.drop noted id))
  · rw [h]
    exact hnoted.tail (.mail noted _ noted.inbox)

theorem acts_readPeer (host : Host σ) (b : Broker σ) (id : StreamId) :
    Acts host b (b.readPeer host id) := by
  rcases readPeer_cases host b id with ⟨_, h⟩ | ⟨key, peer, hkey, hattached, h⟩
  · rw [h]
  · have hpeer : b.peer? id = some peer := peer?_eq_some.mpr ⟨key, hkey, hattached⟩
    let heard := b.hear host id key peer
    let asked : Broker σ := { b with world := (key.stream.read host b.world).2 }
    have hasked : Acts host b asked := acts_call (key.stream.calls_read host b.world)
    have hnote : Move host asked heard.2 := .note hpeer rfl
    have hheard : heard.2.peer? id = some heard.1 := by
      have hself : asked.peer? id = some peer := hpeer
      exact peer?_setPeer_self hself
    obtain ⟨hgreet, hgreeted⟩ := acts_greet host hheard
    have hall := (hasked.tail (.move hnote)).trans hgreet
    rcases h with ⟨_, h⟩ | ⟨peer', hsome, h⟩
    · rw [h]
      exact hall
    · have htaken := hall.trans (acts_takeFrames (hgreeted peer' hsome))
      rcases h with h | h
      · rw [h]
        exact htaken
      · rw [h]
        exact htaken.tail (.move (.drop _ id))

theorem acts_serve (host : Host σ) (b : Broker σ) (id : StreamId) :
    Acts host b (b.serve host id).2 := by
  unfold serve
  split
  · exact .single (.accept b)
  · split
    · exact .refl
    · rename_i key _
      have hflushed : Acts host b (if key.ready.write then b.flushPeer host id else b) := by
        split
        · exact (moves_flushPeer b id).acts
        · exact .refl
      dsimp only
      split
      · exact hflushed.trans (acts_readPeer host _ id)
      · exact hflushed

theorem acts_serveAll (host : Host σ) (ids : List StreamId) (b : Broker σ) :
    Acts host b (serveAll host ids b).2 := by
  induction ids generalizing b with
  | nil => exact .refl
  | cons id ids ih =>
    have hone := acts_serve host b id
    unfold serveAll
    generalize b.serve host id = served at hone ⊢
    obtain ⟨outcome, b'⟩ := served
    cases outcome with
    | error e => exact hone
    | ok _ => exact hone.trans (ih b')

theorem acts_routeOne (host : Host σ) (connected : List WorkerId) (now : Duration) (b : Broker σ)
    (q : Queued) : Acts host b (routeOne host connected now b q) := by
  have hroll : Acts host b { b with world := (host.roll b.world).2 } :=
    acts_call (.single (.roll b.world))
  rw [routeOne_eq]
  refine hroll.trans ?_
  cases (plan q.envelope connected (host.roll b.world).1).fate b.requeue.ttl (now - q.since) with
  | inbox | kept => exact .single (.mail _ _ _)
  | offered uids => exact (moves_foldl (moves_deliver _) uids _).acts
  | expired | unknown => exact .refl

theorem acts_route (host : Host σ) (b : Broker σ) : Acts host b (b.route host) := by
  by_cases hqueue : b.queue = []
  · rw [route_of_queue_nil hqueue]
  · rw [route_of_queue_ne_nil hqueue]
    have hempty : Acts host b { b with queue := [] } := .single (.mail b [] b.inbox)
    have hall : ∀ (qs : List Queued) (c : Broker σ),
        Acts host c (qs.foldl (routeOne host b.connected (host.clock b.world)) c) := by
      intro qs
      induction qs with
      | nil => exact fun _ => .refl
      | cons q qs ih => exact fun c => (acts_routeOne host _ _ c q).trans (ih _)
    exact (hempty.trans (hall b.queue _)).tail (.mail _ _ _)

theorem acts_onReady (host : Host σ) (b : Broker σ) : Acts host b (b.onReady host).2 := by
  have hserved := acts_serveAll host b.selector.ready b
  unfold onReady
  generalize serveAll host b.selector.ready b = served at hserved ⊢
  obtain ⟨outcome, b'⟩ := served
  cases outcome with
  | error e => exact hserved
  | ok _ => exact hserved.trans (acts_route host b')

theorem acts_submit (host : Host σ) (b : Broker σ) (e : Envelope) :
    Acts host b (b.submit host e) :=
  .single (.mail b _ b.inbox)

theorem moves_dropAll (host : Host σ) (ids : List StreamId) (b : Broker σ) :
    Moves host b (ids.foldl (dropConnection host) b) :=
  moves_foldl (fun c id => .single (.drop c id)) ids b

theorem acts_sweep (host : Host σ) (b : Broker σ) : Acts host b (b.sweep host).2 :=
  Moves.acts ((moves_dropAll host _ b).trans (moves_dropAll host _ _))

theorem acts_close (host : Host σ) (b : Broker σ) : Acts host b (b.close host) :=
  Moves.acts ((moves_dropAll host _ b).tail (.close _ _))

/-! ## Agreement -/

/-- The places where connections are noted agree. -/
structure Sound (b : Broker σ) : Prop where
  keyed : b.selector.Keyed
  /-- A connection has a handshake or not. -/
  apart : ∀ {uid id}, b.peers.find? uid = some id → ¬ b.pending.contains id = true
  unshared : b.Unshared
  noServer : b.peers.find? WorkerId.server = none
  strangers : ∀ {id peer}, b.peer? id = some peer → peer.uid = none → b.pending.contains id = true
  workers : ∀ {id peer uid}, b.peer? id = some peer → peer.uid = some uid →
    b.peers.find? uid = some id

/-- The connection has a place in a table. -/
def Placed (b : Broker σ) (id : StreamId) : Prop :=
  b.pending.contains id = true ∨ ∃ uid, b.peers.find? uid = some id

/-- All ids in the tables have been given out. -/
def Known (issued : σ → StreamId → Prop) (b : Broker σ) : Prop :=
  ∀ id, b.Placed id → issued b.world id

theorem Thins.sound (h : Thins b b') (hb : Sound b) : Sound b' where
  keyed := h.keyed hb.keyed
  apart hid hid' := hb.apart (h.peers hid) (h.pending hid')
  unshared := h.unshared hb.unshared
  noServer := by
    rw [Option.eq_none_iff_forall_ne_some]
    intro id hid
    cases hb.noServer.symm.trans (h.peers hid)
  strangers hpeer' huid := by
    obtain ⟨⟨peer, hpeer, hsame⟩, hpending, _⟩ := h.key hpeer'
    exact hpending (hb.strangers hpeer (hsame.trans huid))
  workers hpeer' huid := by
    obtain ⟨⟨peer, hpeer, hsame⟩, _, hpeers⟩ := h.key hpeer'
    exact hpeers (hb.workers hpeer (hsame.trans huid))

theorem Thins.placed {id : StreamId} (h : Thins b b') (hid : b'.Placed id) : b.Placed id := by
  rcases hid with hid | ⟨uid, hid⟩
  · exact Or.inl (h.pending hid)
  · exact Or.inr ⟨uid, h.peers hid⟩

theorem Known.thins {issued : σ → StreamId → Prop} (hb : Known issued b)
    (hnumbers : host.Numbers issued) (h : Thins b b') (hcalls : host.Calls b.world b'.world) :
    Known issued b' :=
  fun id hid => hnumbers.calls hcalls (hb id (h.placed hid))

/-! ## Accepting -/

/-- A connection that is noted nowhere is registered. -/
theorem sound_register {selector : Selector Peer} {id : StreamId}
    (hselector : b.selector.register { id, kind := .socket } .reading (some {}) = .ok selector)
    (hfresh : ¬ b.Placed id) (hb : Sound b) :
    Sound { b with selector, pending := b.pending.insert id () } where
  keyed := Selector.keyed_register hselector hb.keyed
  apart {uid id'} hid hid' := by
    rcases (Table.contains_insert b.pending id id' ()).mp hid' with rfl | hid'
    · exact hfresh (Or.inr ⟨uid, hid⟩)
    · exact hb.apart hid hid'
  unshared := hb.unshared
  noServer := hb.noServer
  strangers {id' peer} hpeer huid := by
    have hattached : selector.attached id' = some peer := hpeer
    rw [Selector.attached_register hselector] at hattached
    refine (Table.contains_insert b.pending id id' ()).mpr ?_
    split at hattached
    · rename_i hid
      exact Or.inl hid
    · exact Or.inr (hb.strangers hattached huid)
  workers {id' peer uid} hpeer huid := by
    have hattached : selector.attached id' = some peer := hpeer
    rw [Selector.attached_register hselector] at hattached
    split at hattached
    · cases hattached
      cases huid
    · exact hb.workers hattached huid

theorem placed_register {selector : Selector Peer} {id id' : StreamId}
    (h : Placed { b with selector, pending := b.pending.insert id () } id') :
    id' = id ∨ b.Placed id' := by
  rcases h with h | h
  · exact ((Table.contains_insert b.pending id id' ()).mp h).imp_right Or.inl
  · exact Or.inr (Or.inr h)

theorem world_enroll (events : List Poll.AcceptEvent) (b : Broker σ) :
    (enroll events b).2.world = b.world := by
  induction events generalizing b with
  | nil => rfl
  | cons event events ih =>
    cases event with
    | failed failure => rfl
    | connection id =>
      unfold enroll
      split
      · rfl
      · exact ih _

/-- Connections that are noted nowhere are accepted one after another. -/
theorem sound_enroll {events : List Poll.AcceptEvent}
    (hfresh : ∀ id ∈ Poll.accepted events, ¬ b.Placed id) (hnodup : (Poll.accepted events).Nodup)
    (hb : Sound b) :
    Sound (enroll events b).2 ∧
      ∀ id, (enroll events b).2.Placed id → id ∈ Poll.accepted events ∨ b.Placed id := by
  induction events generalizing b with
  | nil => exact ⟨hb, fun id hid => Or.inr hid⟩
  | cons event events ih =>
    cases event with
    | failed failure => exact ⟨hb, fun id hid => Or.inr hid⟩
    | connection id =>
      have hcons : Poll.accepted (.connection id :: events) = id :: Poll.accepted events := rfl
      rw [hcons] at hfresh hnodup ⊢
      obtain ⟨hnot, hnodup⟩ := List.nodup_cons.mp hnodup
      unfold enroll
      split
      · exact ⟨hb, fun id' hid' => Or.inr hid'⟩
      · rename_i selector hselector
        let noted : Broker σ := { b with selector, pending := b.pending.insert id () }
        have hnoted : Sound noted := sound_register hselector (hfresh id List.mem_cons_self) hb
        have hfresh' : ∀ id' ∈ Poll.accepted events, ¬ noted.Placed id' := by
          intro id' hid' hplaced
          rcases placed_register hplaced with rfl | hplaced
          · exact hnot hid'
          · exact hfresh id' (List.mem_cons_of_mem id hid') hplaced
        obtain ⟨hsound, hplaced⟩ := ih hfresh' hnodup hnoted
        refine ⟨hsound, ?_⟩
        intro id' hid'
        rcases hplaced id' hid' with hid' | hid'
        · exact Or.inl (List.mem_cons_of_mem id hid')
        · rcases placed_register hid' with rfl | hid'
          · exact Or.inl List.mem_cons_self
          · exact Or.inr hid'

theorem sound_accept {issued : σ → StreamId → Prop} (hnumbers : host.Numbers issued)
    (hb : Sound b) (hknown : Known issued b) :
    Sound (b.accept host).2 ∧ Known issued (b.accept host).2 := by
  unfold accept
  split
  · exact ⟨hb, hknown⟩
  · rename_i key _
    let events := (key.stream.accept host b.world).1
    let asked : Broker σ := { b with world := (key.stream.accept host b.world).2 }
    have hthins : Thins b asked := .of_eq rfl rfl rfl
    have hevents : (∀ id ∈ Poll.accepted events, ¬ issued b.world id ∧ issued asked.world id) ∧
        (Poll.accepted events).Nodup := by
      rcases key.stream.accept_cases host b.world with h | ⟨h, _⟩
      · simp only [events, asked, h]
        exact ⟨fun id hid => ⟨hnumbers.fresh hid, hnumbers.noted hid⟩, hnumbers.nodup _ _⟩
      · simp only [events, h]
        exact ⟨fun id hid => (List.not_mem_nil hid).elim, List.nodup_nil⟩
    obtain ⟨hids, hnodup⟩ := hevents
    have hfresh : ∀ id ∈ Poll.accepted events, ¬ asked.Placed id :=
      fun id hid hplaced => (hids id hid).1 (hknown id (hthins.placed hplaced))
    obtain ⟨hsound, hplaced⟩ := sound_enroll hfresh hnodup (hthins.sound hb)
    refine ⟨hsound, ?_⟩
    intro id hid
    show issued (enroll events asked).2.world id
    rw [world_enroll]
    rcases hplaced id hid with hid | hid
    · exact (hids id hid).2
    · exact hnumbers.calls (key.stream.calls_accept host b.world) (hknown id (hthins.placed hid))

/-! ## Promoting -/

/-- A promoted connection is in the table of its worker, and the one that was
there before has lost its key. -/
theorem promote_cases (host : Host σ) (b : Broker σ) (id : StreamId) (uid : WorkerId) :
    (b.promote host id uid).pending = b.pending.erase id ∧
      (b.promote host id uid).peers = b.peers.insert uid id ∧
      b.selector.Thins (b.promote host id uid).selector ∧
      (∀ previous, b.peers.find? uid = some previous → previous ≠ id →
        (b.promote host id uid).peer? previous = none) ∧
      host.Calls b.world (b.promote host id uid).world := by
  unfold promote
  dsimp only
  cases hprevious : b.peers.find? uid with
  | none => exact ⟨rfl, rfl, .refl _, fun _ h => (nomatch h), .refl⟩
  | some previous =>
    dsimp only
    split
    · rename_i hsame
      refine ⟨rfl, rfl, .refl _, ?_, .refl⟩
      rintro _ ⟨⟩ hne
      exact absurd hsame hne
    · refine ⟨rfl, rfl, ?_, ?_, Selector.calls_discard _ _ host b.world⟩
      · rw [selector_closeStream]
        exact Selector.thins_remove b.selector previous
      · rintro _ ⟨⟩ _
        rw [peer?_closeStream, if_pos rfl]

/-- A connection that is left after a promotion is the promoted one, or it was
there before and is not the one that lost its place. -/
theorem peer?_of_promote {id id' : StreamId} {peer peer' p : Peer} {uid : WorkerId}
    (hpeer : b.peer? id = some peer)
    (hp : ((b.setPeer id peer').promote host id uid).peer? id' = some p) :
    (id' = id ∧ p = peer') ∨
      (id' ≠ id ∧ b.peer? id' = some p ∧ b.peers.find? uid ≠ some id') := by
  obtain ⟨_, _, hthins, hprevious, _⟩ := promote_cases host (b.setPeer id peer') id uid
  have hnamed : (b.setPeer id peer').peer? id' = some p := hthins.attached hp
  by_cases hid : id' = id
  · subst hid
    rw [peer?_setPeer_self hpeer] at hnamed
    exact Or.inl ⟨rfl, (Option.some.inj hnamed).symm⟩
  · rw [peer?_setPeer_of_ne hid] at hnamed
    refine Or.inr ⟨hid, hnamed, fun hgone => ?_⟩
    rw [hprevious id' hgone hid] at hp
    cases hp

theorem sound_promote {id : StreamId} {peer peer' : Peer} {uid : WorkerId}
    (hpeer : b.peer? id = some peer) (hstranger : peer.uid = none)
    (hserver : uid.isServer = false) (huid : peer'.uid = some uid) (hb : Sound b) :
    Sound ((b.setPeer id peer').promote host id uid) := by
  let named := b.setPeer id peer'
  obtain ⟨hpending, hpeers, hthins, _, _⟩ := promote_cases host named id uid
  have hplace : b.pending.contains id = true := hb.strangers hpeer hstranger
  have hother : ∀ {u}, b.peers.find? u ≠ some id := fun h => hb.apart h hplace
  have hfind : ∀ u, (named.promote host id uid).peers.find? u =
      if u = uid then some id else b.peers.find? u := by
    intro u
    rw [hpeers]
    exact Table.find?_insert b.peers uid u id
  have hwait : ∀ id', (named.promote host id uid).pending.contains id' = true ↔
      id' ≠ id ∧ b.pending.contains id' = true := by
    intro id'
    rw [hpending]
    exact Table.contains_erase b.pending id id'
  constructor
  case keyed =>
    exact hthins.keyed (keyed_setPeer hb.keyed id peer')
  case apart =>
    intro u id' hid' hid''
    rw [hfind] at hid'
    obtain ⟨hne, hid''⟩ := (hwait id').mp hid''
    split at hid'
    · exact hne (Option.some.inj hid').symm
    · exact hb.apart hid' hid''
  case unshared =>
    intro u u' id' hu hu'
    rw [hfind] at hu hu'
    split at hu <;> split at hu'
    · rename_i h h'
      exact h.trans h'.symm
    · cases hu
      exact absurd hu' hother
    · cases hu'
      exact absurd hu hother
    · exact hb.unshared u u' id' hu hu'
  case noServer =>
    rw [hfind, if_neg, hb.noServer]
    rintro rfl
    cases hserver
  case strangers =>
    intro id' p hp hnone
    rcases peer?_of_promote hpeer hp with ⟨rfl, rfl⟩ | ⟨hne, hp, _⟩
    · rw [huid] at hnone
      cases hnone
    · exact (hwait id').mpr ⟨hne, hb.strangers hp hnone⟩
  case workers =>
    intro id' p u hp hu
    rw [hfind]
    rcases peer?_of_promote hpeer hp with ⟨rfl, rfl⟩ | ⟨_, hp, hgone⟩
    · rw [huid] at hu
      cases hu
      rw [if_pos rfl]
    · have hfound := hb.workers hp hu
      rw [if_neg, hfound]
      rintro rfl
      exact hgone hfound

theorem Act.sound {issued : σ → StreamId → Prop} (hnumbers : host.Numbers issued)
    (h : Act host b b') (hb : Sound b) (hknown : Known issued b) :
    Sound b' ∧ Known issued b' := by
  cases h with
  | move hmove =>
    exact ⟨hmove.thins.sound hb, hknown.thins hnumbers hmove.thins hmove.calls⟩
  | mail queue inbox =>
    have hthins : Thins b { b with queue, inbox } := .of_eq rfl rfl rfl
    exact ⟨hthins.sound hb, hknown.thins hnumbers hthins .refl⟩
  | accept => exact sound_accept hnumbers hb hknown
  | @promote id peer peer' uid hpeer hstranger hserver huid =>
    obtain ⟨hpending, hpeers, _, _, hcalls⟩ := promote_cases host (b.setPeer id peer') id uid
    refine ⟨sound_promote hpeer hstranger hserver huid hb, ?_⟩
    intro id' hid'
    refine hnumbers.calls hcalls (hknown id' ?_)
    unfold Placed at hid'
    rw [hpending, hpeers] at hid'
    rcases hid' with hid' | ⟨uid', hid'⟩
    · exact Or.inl ((Table.contains_erase b.pending id id').mp hid').2
    · rw [Table.find?_insert] at hid'
      split at hid'
      · cases hid'
        exact Or.inl (hb.strangers hpeer hstranger)
      · exact Or.inr ⟨uid', hid'⟩

theorem Acts.sound {issued : σ → StreamId → Prop} (hnumbers : host.Numbers issued)
    (h : Acts host b b') (hb : Sound b) (hknown : Known issued b) :
    Sound b' ∧ Known issued b' := by
  induction h with
  | refl => exact ⟨hb, hknown⟩
  | tail _ hact ih => exact hact.sound hnumbers ih.1 ih.2

/-! ## Operations -/

/-- A broker that begins to listen, with nobody connected. -/
def Opened (host : Host σ) (b : Broker σ) : Prop :=
  ∃ address requeue s routing selector s' limit,
    Routing.bind host address requeue s = (.ok (routing, selector), s') ∧
      b = { routing with outboundLimit := limit, selector, world := s' }

/-- A broker whose streams were polled. -/
def polled (host : Host σ) (b : Broker σ) (timeout : Option Duration) : Broker σ :=
  let (_, selector, world) := b.selector.select timeout host b.world
  { b with selector, world }

/-- What can happen to a broker: its operations, polls, streams that are closed,
and changes of the world that take no number back. -/
inductive Step (host : Host σ) (issued : σ → StreamId → Prop) : Broker σ → Broker σ → Prop where
  | onReady (b : Broker σ) : Step host issued b (b.onReady host).2
  | submit (b : Broker σ) (e : Envelope) : Step host issued b (b.submit host e)
  | send (b : Broker σ) (audience : Audience) (number : UInt64) (message : Message) :
      Step host issued b (b.send host audience number message)
  | route (b : Broker σ) : Step host issued b (b.route host)
  | takeInbox (b : Broker σ) : Step host issued b b.takeInbox.2
  | sweep (b : Broker σ) : Step host issued b (b.sweep host).2
  | close (b : Broker σ) : Step host issued b (b.close host)
  | select (b : Broker σ) (timeout : Option Duration) : Step host issued b (b.polled host timeout)
  | closeStream (b : Broker σ) (id : StreamId) :
      Step host issued b { b with selector := b.selector.closeStream id }
  | outside (b : Broker σ) (world : σ) : (∀ id, issued b.world id → issued world id) →
      Step host issued b { b with world }

/-- The states of a broker after any operations. -/
inductive Reachable (host : Host σ) (issued : σ → StreamId → Prop) : Broker σ → Prop where
  | opened {b : Broker σ} : Opened host b → Reachable host issued b
  | step {b b' : Broker σ} : Reachable host issued b → Step host issued b b' →
      Reachable host issued b'

theorem Opened.sound (h : Opened host b) : Sound b ∧ ∀ id, ¬ b.Placed id := by
  obtain ⟨address, requeue, s, routing, selector, s', limit, hbind, rfl⟩ := h
  unfold Routing.bind at hbind
  split at hbind
  · cases hbind
  · split at hbind
    · cases hbind
    · rename_i hregister
      cases hbind
      have hattached : ∀ id peer, selector.attached id ≠ some peer := by
        intro id peer hpeer
        rw [Selector.attached_register hregister] at hpeer
        split at hpeer
        · cases hpeer
        · cases hpeer
      refine ⟨⟨?_, ?_, ?_, ?_, ?_, ?_⟩, ?_⟩
      · exact Selector.keyed_register hregister (fun _ _ h => nomatch h)
      · intro uid id hid
        cases hid
      · intro uid uid' id hid
        cases hid
      · rfl
      · intro id peer hpeer
        exact absurd hpeer (hattached id peer)
      · intro id peer uid hpeer
        exact absurd hpeer (hattached id peer)
      · rintro id (hid | ⟨uid, hid⟩)
        · cases hid
        · cases hid

theorem Step.sound {issued : σ → StreamId → Prop} (hnumbers : host.Numbers issued)
    (h : Step host issued b b') (hb : Sound b) (hknown : Known issued b) :
    Sound b' ∧ Known issued b' := by
  have ofActs : Acts host b b' → Sound b' ∧ Known issued b' :=
    fun hacts => hacts.sound hnumbers hb hknown
  cases h with
  | onReady => exact ofActs (acts_onReady host b)
  | submit e => exact ofActs (acts_submit host b e)
  | send audience number message =>
    exact ofActs ((acts_submit host b _).trans (acts_route host _))
  | route => exact ofActs (acts_route host b)
  | takeInbox => exact ofActs (.single (.mail b b.queue []))
  | sweep => exact ofActs (acts_sweep host b)
  | close => exact ofActs (acts_close host b)
  | select timeout =>
    have hcalls := Selector.calls_select b.selector timeout host b.world
    exact ofActs ((acts_call hcalls).tail (.move (.select (Selector.thins_select _ _ _ _))))
  | closeStream id => exact ofActs (.single (.move (.select (Selector.thins_closeStream _ id))))
  | outside world hissued =>
    have hthins : Thins b { b with world } := .of_eq rfl rfl rfl
    exact ⟨hthins.sound hb, fun id hid => hissued id (hknown id (hthins.placed hid))⟩

theorem Reachable.sound {issued : σ → StreamId → Prop} (hnumbers : host.Numbers issued)
    (h : Reachable host issued b) : Sound b ∧ Known issued b := by
  induction h with
  | opened hopened =>
    obtain ⟨hsound, hnobody⟩ := hopened.sound
    exact ⟨hsound, fun id hid => absurd hid (hnobody id)⟩
  | step _ hstep ih => exact hstep.sound hnumbers ih.1 ih.2

/-! ## Sweeping -/

/-- The outcome of a sweep. -/
structure Swept (b : Broker σ) (uids : List WorkerId) (b' : Broker σ) : Prop where
  /-- Every connection that is left has an open stream. -/
  live : ∀ id, b'.Placed id → ∃ key, b'.selector.keys.find? id = some key ∧
    key.stream.closed = false
  /-- The workers that are told are those that are gone. -/
  told : uids = b.connected.filter fun uid => uid ∉ b'.connected

theorem keys_dropAll (ids : List StreamId) (b : Broker σ) (id : StreamId) :
    (ids.foldl (dropConnection host) b).selector.keys.find? id =
      if id ∈ ids then none else b.selector.keys.find? id := by
  induction ids generalizing b with
  | nil => rfl
  | cons id' ids ih =>
    have hone : (b.dropConnection host id').selector.keys.find? id =
        if id = id' then none else b.selector.keys.find? id := by
      rw [dropConnection, selector_closeStream]
      exact Table.find?_erase b.selector.keys id' id
    rw [List.foldl_cons, ih, hone]
    by_cases hids : id ∈ ids
    · rw [if_pos hids, if_pos (List.mem_cons_of_mem id' hids)]
    · rw [if_neg hids]
      simp only [List.mem_cons, hids, or_false]

theorem pending_dropAll (ids : List StreamId) (b : Broker σ) (id : StreamId) :
    (ids.foldl (dropConnection host) b).pending.contains id = true ↔
      b.pending.contains id = true ∧ id ∉ ids := by
  induction ids generalizing b with
  | nil => simp
  | cons id' ids ih =>
    rw [List.foldl_cons, ih, pending_dropConnection, List.mem_cons, not_or]
    constructor
    · rintro ⟨⟨hne, hid⟩, hids⟩
      exact ⟨hid, hne, hids⟩
    · rintro ⟨hid, hne, hids⟩
      exact ⟨⟨hne, hid⟩, hids⟩

theorem peers_dropAll (ids : List StreamId) (b : Broker σ) (uid : WorkerId) (id : StreamId) :
    (ids.foldl (dropConnection host) b).peers.find? uid = some id ↔
      b.peers.find? uid = some id ∧ id ∉ ids := by
  induction ids generalizing b with
  | nil => simp
  | cons id' ids ih =>
    rw [List.foldl_cons, ih, peers_dropConnection, Option.filter_eq_some_iff, List.mem_cons, not_or,
      decide_eq_true_iff]
    exact and_assoc

/-- The workers that a sweep finds without a live stream, with their streams. -/
def lost (b : Broker σ) : List (WorkerId × StreamId) :=
  b.peers.entries.filter fun (_, id) => b.isDead id

/-- The streams that a sweep drops. -/
def dead (b : Broker σ) : List StreamId :=
  b.pending.keys.filter b.isDead ++ b.lost.map (·.2)

theorem sweep_eq (host : Host σ) (b : Broker σ) :
    b.sweep host = (b.lost.map (·.1), b.dead.foldl (dropConnection host) b) := by
  rw [dead, List.foldl_append]
  rfl

/-- The dropped streams are the dead ones among those in the tables. -/
theorem mem_dead {id : StreamId} (h : b.Placed id) : id ∈ b.dead ↔ b.isDead id = true := by
  unfold dead lost
  simp only [List.mem_append, List.mem_filter, List.mem_map]
  constructor
  · rintro (⟨_, hdead⟩ | ⟨⟨uid, id'⟩, ⟨_, hdead⟩, rfl⟩)
    · exact hdead
    · exact hdead
  · intro hdead
    rcases h with h | ⟨uid, h⟩
    · exact Or.inl ⟨Table.contains_iff.mp h, hdead⟩
    · exact Or.inr ⟨(uid, id), ⟨Table.find?_eq_some_iff.mp h, hdead⟩, rfl⟩

theorem swept_sweep (host : Host σ) (b : Broker σ) :
    Swept b (b.sweep host).1 (b.sweep host).2 := by
  rw [sweep_eq]
  constructor
  · intro id hid
    have hplaced : b.Placed id ∧ id ∉ b.dead := by
      rcases hid with hid | ⟨uid, hid⟩
      · exact ((pending_dropAll _ _ _).mp hid).imp_left Or.inl
      · exact ((peers_dropAll _ _ _ _).mp hid).imp_left fun h => Or.inr ⟨uid, h⟩
    obtain ⟨hplaced, hkept⟩ := hplaced
    rw [keys_dropAll, if_neg hkept]
    have hlive : ¬ b.isDead id = true := fun hdead => hkept ((mem_dead hplaced).mpr hdead)
    unfold isDead at hlive
    cases hkey : b.selector.keys.find? id with
    | none =>
      rw [hkey] at hlive
      exact absurd rfl hlive
    | some key =>
      rw [hkey, Option.all_some, Bool.not_eq_true] at hlive
      exact ⟨key, rfl, hlive⟩
  · let swept := b.dead.foldl (dropConnection host) b
    show b.lost.map (·.1) = b.connected.filter fun uid => uid ∉ swept.connected
    have hkeys : b.connected = b.peers.entries.map (·.1) := rfl
    rw [hkeys, List.filter_map, lost]
    congr 1
    refine List.filter_congr ?_
    rintro ⟨uid, id⟩ hentry
    have hid : b.peers.find? uid = some id := Table.find?_eq_some_iff.mpr hentry
    have hdead := mem_dead (Or.inr ⟨uid, hid⟩)
    have hgone : uid ∉ swept.connected ↔ id ∈ b.dead := by
      rw [mem_connected]
      constructor
      · intro hnone
        by_contra hkept
        exact hnone ⟨id, (peers_dropAll _ _ _ _).mpr ⟨hid, hkept⟩⟩
      · rintro hdropped ⟨id', hid'⟩
        obtain ⟨hid', hkept⟩ := (peers_dropAll _ _ _ _).mp hid'
        cases hid.symm.trans hid'
        exact hkept hdropped
    rw [Bool.eq_iff_iff, ← hdead, ← hgone]
    exact decide_eq_true_iff.symm

/-- Whatever is asked of a broker and whatever happens on its streams, the
places where connections are noted agree, and a sweep drops exactly the
connections whose streams are gone or closed. -/
theorem tables_agree {issued : σ → StreamId → Prop} (hnumbers : host.Numbers issued)
    (hb : Reachable host issued b) :
    Sound b ∧ Swept b (b.sweep host).1 (b.sweep host).2 :=
  ⟨(hb.sound hnumbers).1, swept_sweep host b⟩

/-! ## A host with numbered streams -/

/-- A host that counts its streams.  Somebody connects whenever it is asked, and
every connection says that it is worker 2. -/
def counting : Host Nat where
  poll _ _ n := (.reported fun _ => { readable := true }, n)
  incoming _ _ := [.data (Wire.handshake ⟨2⟩), .wouldBlock]
  consume _ _ n := n
  write _ b n := ([.wrote b.length], n)
  accept _ n := if n < UInt64.size then ([.connection ⟨UInt64.ofNat n⟩], n + 1) else ([], n)
  close _ n := n
  bind address _ n := (.ok (⟨UInt64.ofNat n⟩, address), n + 1)
  connect _ n := (.error ⟨.other, "Connection refused"⟩, n)
  clock _ := .ofSeconds 1
  present _ := 0
  usage _ := (0, 0)
  sleep _ n := n
  roll n := (fun _ => 0, n)

theorem counting_accept (listener : StreamId) (n : Nat) :
    counting.accept listener n = ([], n) ∨
      (n < UInt64.size ∧ counting.accept listener n = ([.connection ⟨UInt64.ofNat n⟩], n + 1)) := by
  by_cases h : n < UInt64.size
  · exact Or.inr ⟨h, if_pos h⟩
  · exact Or.inl (if_neg h)

theorem counting_numbers : counting.Numbers fun n id => id.val.toNat < n := by
  constructor
  case keeps =>
    intro n n' id hcall hid
    cases hcall with
    | poll | consume | write | close | roll => exact hid
    | accept listener =>
      rcases counting_accept listener n with h | ⟨_, h⟩
      · rw [h]
        exact hid
      · rw [h]
        exact Nat.lt_succ_of_lt hid
  case fresh =>
    intro n listener id hid
    rcases counting_accept listener n with h | ⟨hn, h⟩
    · rw [h] at hid
      cases hid
    · rw [h] at hid
      cases List.mem_singleton.mp hid
      simp [UInt64.toNat_ofNat_of_lt' hn]
  case noted =>
    intro n listener id hid
    rcases counting_accept listener n with h | ⟨hn, h⟩
    · rw [h] at hid
      cases hid
    · rw [h] at hid ⊢
      cases List.mem_singleton.mp hid
      simp [UInt64.toNat_ofNat_of_lt' hn]
  case nodup =>
    intro n listener
    rcases counting_accept listener n with h | ⟨_, h⟩
    · rw [h]
      exact List.nodup_nil
    · rw [h]
      exact List.nodup_singleton _

/-- Three turns, and a new connection in each of them.  In the third turn the
second connection takes the place of the first, for it has the same worker.
Then its stream is closed. -/
theorem tables_agree_reconnect :
    let issued := fun (n : Nat) (id : StreamId) => id.val.toNat < n
    let turn (b : Broker Nat) : Broker Nat := ((b.polled counting none).onReady counting).2
    let opened : Broker Nat := {
      address := .v4 ⟨127, 0, 0, 1⟩ 4000
      listener := ⟨1⟩
      requeue := .standard
      outboundLimit := standardOutboundLimit
      selector := ⟨Table.empty.insert ⟨1⟩
        { stream := { id := ⟨1⟩, kind := .listener }, interest := .accepting }, []⟩
      world := 2 }
    let joined := turn (turn (turn opened))
    let b := { joined with selector := joined.selector.closeStream ⟨3⟩ }
    Reachable counting issued b ∧ joined.peers.find? ⟨2⟩ = some ⟨3⟩ ∧ joined.peer? ⟨2⟩ = none ∧
      joined.pending.keys = [⟨4⟩] ∧ (b.sweep counting).1 = [⟨2⟩] ∧
      Sound b ∧ Swept b (b.sweep counting).1 (b.sweep counting).2 := by
  intro issued turn opened joined b
  have hopened : Reachable counting issued opened :=
    .opened ⟨_, _, 1, _, _, _, _, rfl, rfl⟩
  have hturn : ∀ {c}, Reachable counting issued c → Reachable counting issued (turn c) :=
    fun hc => (hc.step (.select _ none)).step (.onReady _)
  have hb : Reachable counting issued b :=
    (hturn (hturn (hturn hopened))).step (.closeStream joined ⟨3⟩)
  obtain ⟨hsound, hswept⟩ := tables_agree counting_numbers hb
  exact ⟨hb, by decide +kernel, by decide +kernel, by decide +kernel, by decide +kernel, hsound,
    hswept⟩

end Bus.Broker

end Supervisor
