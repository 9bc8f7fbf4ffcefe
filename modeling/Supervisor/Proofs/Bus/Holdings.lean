import Supervisor.Proofs.Bus.Identity
import Supervisor.Proofs.Wire.Residue

/-!
# How much a broker keeps of what a connection delivers

Whoever connects may deliver what it likes, cut into pieces as it likes.  A
broker keeps of it what it cannot deal with yet: the beginning of a handshake,
or a frame that has not ended.  Both are bounded, and a connection that goes
beyond a bound is dropped.

* `Tolerable` says what a connection may have delivered so far, in terms of
  these bytes alone.
* `Held` is the invariant.  It ties what is kept of a connection to the bytes
  that it has delivered: all of them before the handshake, and afterwards those
  behind the last terminator.
* `settled_readPeer` is the step.  Reading a connection drops it exactly if its
  stream has ended or if it has delivered something intolerable; otherwise the
  connection is held.  `Course.held` and `Course.tolerable` follow for all
  states of a broker.
-/

namespace Supervisor.Bus

open Poll (Host Ops Traced)
open Wire (Bytes FrameBuffer ReadEvent parseHandshake residue terminator)

/-- What a connection may have delivered for a broker to keep it: the beginning
of a handshake, or the handshake of a worker and no more behind its last frame
than a frame may have. -/
inductive Tolerable (bytes : Bytes) : Prop where
  | stranger : parseHandshake bytes = .ok none → Tolerable bytes
  | worker {uid : WorkerId} {length : Nat} :
      parseHandshake bytes = .ok (some (uid, length)) → uid.isServer = false →
      (residue (bytes.drop length)).length ≤ FrameBuffer.defaultLimit → Tolerable bytes

theorem tolerable_nil : Tolerable [] :=
  .stranger rfl

/-- What is kept of a connection that has delivered `bytes`. -/
structure Held (bytes : Bytes) (peer : Peer) : Prop where
  introduced : Introduced bytes peer
  tolerable : Tolerable bytes
  limit : peer.reader.limit = FrameBuffer.defaultLimit
  /-- After the handshake only an unfinished frame is kept. -/
  tail : ∀ {uid length}, parseHandshake bytes = .ok (some (uid, length)) →
    peer.reader.unparsed = residue (bytes.drop length)

theorem held_new : Held [] {} where
  introduced := introduced_new
  tolerable := tolerable_nil
  limit := rfl
  tail h := nomatch h

theorem Held.congr {bytes : Bytes} {peer peer' : Peer} {ops ops' : Ops} (h : Held bytes peer)
    (hsame : identity ops' peer' = identity ops peer) : Held bytes peer' := by
  obtain ⟨_, hreader⟩ := Prod.mk.inj hsame
  constructor
  · exact h.introduced.congr hsame
  · exact h.tolerable
  · rw [hreader]
    exact h.limit
  · rw [hreader]
    exact h.tail

/-! ## A connection that has been greeted -/

/-- A connection that has been greeted, before its frames are taken out. -/
structure Greeted (bytes : Bytes) (peer : Peer) : Prop where
  introduced : Introduced bytes peer
  limit : peer.reader.limit = FrameBuffer.defaultLimit
  tail : ∀ {uid length}, parseHandshake bytes = .ok (some (uid, length)) →
    residue peer.reader.unparsed = residue (bytes.drop length)

namespace Greeted

variable {bytes : Bytes} {peer : Peer}

/-- Without a handshake there is nothing to take out. -/
theorem held_of_stranger (h : Greeted bytes peer) (huid : peer.uid = none) : Held bytes peer where
  introduced := h.introduced
  tolerable := .stranger (h.introduced.stranger huid).2
  limit := h.limit
  tail hparse := nomatch (h.introduced.stranger huid).2.symm.trans hparse

/-- The frames of a worker can all be taken out if what it has delivered is
tolerable. -/
theorem tolerable_iff (h : Greeted bytes peer) (huid : peer.uid ≠ none) :
    Tolerable bytes ↔ peer.reader.drain.2.2 = none := by
  obtain ⟨uid, huid⟩ := Option.ne_none_iff_exists'.mp huid
  obtain ⟨hserver, length, hparse⟩ := h.introduced.worker huid
  rw [(FrameBuffer.drain_residue _).2.2, h.tail hparse, h.limit]
  constructor
  · rintro (hnone | ⟨hsome, _, hlength⟩)
    · cases hparse.symm.trans hnone
    · cases hparse.symm.trans hsome
      exact hlength
  · exact .worker hparse hserver

theorem held_drained (h : Greeted bytes peer) (huid : peer.uid ≠ none)
    (htolerable : Tolerable bytes) : Held bytes (Broker.drained peer) where
  introduced := h.introduced.drained huid
  tolerable := htolerable
  limit := (FrameBuffer.drain_residue _).2.1.trans h.limit
  tail hparse := (FrameBuffer.drain_residue _).1.trans (h.tail hparse)

end Greeted

variable {σ : Type} {host : Host σ} {b b' : Broker σ}

/-- Whoever is held and delivers more is greeted, unless its handshake is
rejected. -/
theorem Held.greet {bytes more : Bytes} {peer peer' : Peer} (h : Held bytes peer) {id : StreamId}
    (hgreet : (b.greet host id { peer with reader := peer.reader.feed more }).1 = some peer') :
    Greeted (bytes ++ more) peer' := by
  have hintroduced := h.introduced.greet hgreet
  have hunparsed : (peer.reader.feed more).unparsed = peer.reader.unparsed ++ more :=
    h.introduced.tidy.unparsed_feed more
  rcases Broker.greet_cases host b id { peer with reader := peer.reader.feed more }
    with ⟨heq, _⟩ | ⟨heq, _⟩ | ⟨uid, length, hparse, hnone, _, heq⟩
  · rw [heq] at hgreet
    cases hgreet
    refine ⟨hintroduced, h.limit, fun {uid length} hparse => ?_⟩
    cases huid : peer.uid with
    | none => cases (hintroduced.stranger huid).2.symm.trans hparse
    | some uid' =>
      obtain ⟨_, length', hbefore⟩ := h.introduced.worker huid
      cases (Wire.parseHandshake_append hbefore more).symm.trans hparse
      show residue (peer.reader.feed more).unparsed = _
      rw [hunparsed, h.tail hbefore, Wire.residue_residue_append,
        List.drop_append_of_le_length (Wire.length_le_of_parseHandshake hbefore)]
  · rw [heq] at hgreet
    cases hgreet
  · rw [heq] at hgreet
    cases hgreet
    rw [hunparsed, (h.introduced.stranger hnone).1] at hparse
    refine ⟨hintroduced, (FrameBuffer.limit_consume _ _).trans h.limit, fun hparse' => ?_⟩
    cases hparse.symm.trans hparse'
    show residue ((peer.reader.feed more).consume length).unparsed = _
    rw [FrameBuffer.unparsed_consume, hunparsed, (h.introduced.stranger hnone).1]

/-- A handshake is rejected only if what the connection has delivered is
intolerable. -/
theorem Held.not_tolerable_of_rejected {bytes more : Bytes} {peer : Peer} (h : Held bytes peer)
    {id : StreamId}
    (hgreet : (b.greet host id { peer with reader := peer.reader.feed more }).1 = none) :
    ¬ Tolerable (bytes ++ more) := by
  intro htolerable
  unfold Broker.greet at hgreet
  split at hgreet
  · cases hgreet
  · rename_i hstranger
    have huid : peer.uid = none := Option.not_isSome_iff_eq_none.mp hstranger
    have hunparsed : (peer.reader.feed more).unparsed = bytes ++ more := by
      rw [h.introduced.tidy.unparsed_feed, (h.introduced.stranger huid).1]
    rw [hunparsed] at hgreet
    cases htolerable with
    | stranger hparse =>
      rw [hparse] at hgreet
      cases hgreet
    | worker hparse hserver _ =>
      rw [hparse] at hgreet
      simp [hserver] at hgreet

namespace Broker

/-! ## Reading a connection -/

theorem not_placed_dropConnection (b : Broker σ) (id : StreamId) :
    ¬ (b.dropConnection host id).Placed id := by
  rintro (hid | ⟨uid, hid⟩)
  · exact ((pending_dropConnection _ _ _).mp hid).1 rfl
  · rw [peers_dropConnection, Option.filter_eq_some_iff] at hid
    simp at hid

/-- The connection has left no trace. -/
def Gone (b : Broker σ) (id : StreamId) : Prop :=
  b.peer? id = none ∧ ¬ b.Placed id

theorem gone_dropConnection (b : Broker σ) (id : StreamId) : (b.dropConnection host id).Gone id :=
  ⟨by rw [peer?_dropConnection, if_pos rfl], not_placed_dropConnection b id⟩

/-- The frames of a connection are taken out.  It is dropped exactly if what it
has delivered is intolerable. -/
theorem settled_takeFrames (host : Host σ) {bytes : Bytes} {id : StreamId} {peer : Peer}
    (hpeer : b.peer? id = some peer) (h : Greeted bytes peer) :
    let taken := b.takeFrames host id peer
    (taken.1 = true ∧ Tolerable bytes ∧ ∃ peer', taken.2.peer? id = some peer' ∧ Held bytes peer') ∨
      (taken.1 = false ∧ ¬ Tolerable bytes ∧ taken.2.Gone id) := by
  intro taken
  cases huid : peer.uid with
  | none =>
    have htaken : taken = (true, b) := by
      simp only [taken, takeFrames, huid]
    rw [htaken]
    have hheld := h.held_of_stranger huid
    exact Or.inl ⟨rfl, hheld.tolerable, peer, hpeer, hheld⟩
  | some uid =>
    have hworker : peer.uid ≠ none := huid ▸ Option.some_ne_none uid
    let queued : Broker σ := { b with queue := b.queue ++ b.fresh host peer }
    let noted := queued.setPeer id (drained peer)
    have hnoted : noted.peer? id = some (drained peer) := by
      have hqueued : queued.peer? id = some peer := hpeer
      exact peer?_setPeer_self hqueued
    have htaken : taken = if peer.reader.drain.2.2 = none then (true, noted.enforceBound)
        else (false, noted.dropConnection host id) := by
      simp only [taken, noted, queued, takeFrames, fresh, huid, drained]
      cases peer.reader.drain.2.2 with
      | none => rfl
      | some failure => rfl
    rw [htaken]
    by_cases hdrain : peer.reader.drain.2.2 = none
    · rw [if_pos hdrain]
      have htolerable := (h.tolerable_iff hworker).mpr hdrain
      exact Or.inl ⟨rfl, htolerable, _, hnoted, h.held_drained hworker htolerable⟩
    · rw [if_neg hdrain]
      exact Or.inr ⟨rfl, mt (h.tolerable_iff hworker).mp hdrain, gone_dropConnection _ id⟩

theorem readPeer_eq (host : Host σ) {b : Broker σ} {id : StreamId} {key : Poll.Key Peer}
    {peer : Peer} (hkey : b.selector.keys.find? id = some key)
    (hpeer : key.attachment = some peer) :
    let heard := b.hear host id key peer
    let greeted := heard.2.greet host id heard.1
    b.readPeer host id =
      match greeted.1 with
      | none => greeted.2
      | some peer' =>
        let taken := greeted.2.takeFrames host id peer'
        if taken.1 = true ∧ ReadEvent.failure? (key.stream.read host b.world).1 ≠ none then
          taken.2.dropConnection host id
        else taken.2 := by
  intro heard greeted
  unfold readPeer
  rw [hkey]
  simp only [hpeer, greeted, heard, hear, FrameBuffer.readFrom, ReadEvent.outcome]
  generalize greet host _ id _ = greeted
  obtain ⟨_ | peer', b'⟩ := greeted
  · rfl
  · dsimp only
    generalize b'.takeFrames host id peer' = taken
    obtain ⟨stays, b''⟩ := taken
    cases stays <;> cases ReadEvent.failure? (key.stream.read host b.world).1 <;> rfl

/-- A connection that is read is dropped exactly if its stream has ended or what
it has delivered is intolerable.  Otherwise it is held. -/
theorem settled_readPeer {bytes : Bytes} {id : StreamId} {key : Poll.Key Peer} {peer : Peer}
    (hkey : b.selector.keys.find? id = some key) (hpeer : key.attachment = some peer)
    (h : Held bytes peer) :
    let events := (key.stream.read host b.world).1
    let all := bytes ++ ReadEvent.delivered events
    let after := b.readPeer host id
    (Tolerable all ∧ ReadEvent.failure? events = none ∧
        ∃ peer', after.peer? id = some peer' ∧ Held all peer') ∨
      (¬ (Tolerable all ∧ ReadEvent.failure? events = none) ∧ after.Gone id) := by
  intro events all after
  let heard := b.hear host id key peer
  have hheard : heard.2.peer? id = some heard.1 := by
    let asked : Broker σ := { b with world := (key.stream.read host b.world).2 }
    have hasked : asked.peer? id = some peer := peer?_eq_some.mpr ⟨key, hkey, hpeer⟩
    exact peer?_setPeer_self hasked
  have hafter := readPeer_eq host hkey hpeer
  obtain ⟨_, hgreeted⟩ := acts_greet host hheard
  cases hgreet : (heard.2.greet host id heard.1).1 with
  | none =>
    have hrejected : after = heard.2.dropConnection host id := by
      refine (hafter.trans ?_).trans (greet_of_none hgreet)
      simp only [heard] at hgreet ⊢
      rw [hgreet]
    rw [hrejected]
    exact Or.inr ⟨fun hall => h.not_tolerable_of_rejected hgreet hall.1, gone_dropConnection _ id⟩
  | some greeted =>
    have htaken := settled_takeFrames host (hgreeted greeted hgreet) (h.greet hgreet)
    have hafter' : after =
        let taken := (heard.2.greet host id heard.1).2.takeFrames host id greeted
        if taken.1 = true ∧ ReadEvent.failure? events ≠ none then
          taken.2.dropConnection host id
        else taken.2 := by
      refine hafter.trans ?_
      simp only [heard] at hgreet ⊢
      rw [hgreet]
    rw [hafter']
    rcases htaken with ⟨hstays, htolerable, hheld⟩ | ⟨hgoes, hnot, hgone⟩
    · by_cases hfailure : ReadEvent.failure? events = none
      · rw [if_neg fun hboth => hboth.2 hfailure]
        exact Or.inl ⟨htolerable, hfailure, hheld⟩
      · rw [if_pos ⟨hstays, hfailure⟩]
        exact Or.inr ⟨fun hall => hfailure hall.2, gone_dropConnection _ id⟩
    · rw [if_neg fun hboth => Bool.false_ne_true (hgoes.symm.trans hboth.1)]
      exact Or.inr ⟨fun hall => hnot hall.1, hgone⟩

/-! ## Places are for new connections only -/

theorem placed_enroll {events : List Poll.AcceptEvent} {id : StreamId}
    (h : (enroll events b).2.Placed id) : id ∈ Poll.accepted events ∨ b.Placed id := by
  induction events generalizing b with
  | nil => exact Or.inr h
  | cons event events ih =>
    cases event with
    | failed failure => exact Or.inr h
    | connection id' =>
      have hcons : Poll.accepted (.connection id' :: events) = id' :: Poll.accepted events := rfl
      rw [hcons]
      unfold enroll at h
      split at h
      · exact Or.inr h
      · rcases ih h with hid | hid
        · exact Or.inl (List.mem_cons_of_mem id' hid)
        · rcases placed_register hid with rfl | hid
          · exact Or.inl List.mem_cons_self
          · exact Or.inr hid

theorem Act.placed {issued : σ → StreamId → Prop} (hnumbers : host.Numbers issued) (hb : Sound b)
    (h : Act host b b') {id : StreamId} (hid : b'.Placed id) :
    b.Placed id ∨ ¬ issued b.world id := by
  cases h with
  | move hmove => exact Or.inl (hmove.thins.placed hid)
  | mail => exact Or.inl hid
  | accept =>
    unfold Broker.accept at hid
    split at hid
    · exact Or.inl hid
    · rename_i key _
      rcases placed_enroll hid with hid | hid
      · right
        have hid : id ∈ Poll.accepted (key.stream.accept host b.world).1 := hid
        rcases key.stream.accept_cases host b.world with h | ⟨h, _⟩
        · rw [h] at hid
          exact hnumbers.fresh hid
        · rw [h] at hid
          cases hid
      · exact Or.inl hid
  | @promote id' peer peer' uid hpeer hstranger hserver huid =>
    left
    obtain ⟨hpending, hpeers, _⟩ := promote_cases host (b.setPeer id' peer') id' uid
    unfold Placed at hid
    rw [hpending, hpeers] at hid
    rcases hid with hid | ⟨uid', hid⟩
    · exact Or.inl ((Table.contains_erase b.pending id' id).mp hid).2
    · rw [Table.find?_insert] at hid
      split at hid
      · cases hid
        exact Or.inl (hb.strangers hpeer hstranger)
      · exact Or.inr ⟨uid', hid⟩

/-- Whatever has a place had it before or is new. -/
theorem Acts.placed {issued : σ → StreamId → Prop} (hnumbers : host.Numbers issued)
    (hb : Sound b) (hknown : Known issued b) (h : Acts host b b') {id : StreamId}
    (hid : b'.Placed id) : b.Placed id ∨ ¬ issued b.world id := by
  induction h with
  | refl => exact Or.inl hid
  | @tail c _ hacts hact ih =>
    rcases hact.placed hnumbers (Acts.sound hnumbers hacts hb hknown).1 hid with hid | hnew
    · exact ih hid
    · exact Or.inr fun hissued => hnew (hnumbers.calls (Acts.calls hacts) hissued)

/-! ## Every connection is held -/

variable {issued : σ → StreamId → Prop} {log : List (Broker (Traced σ) × Phase)}
  {b : Broker (Traced σ)}

/-- What reading a connection makes of it, in terms of all that it has
delivered. -/
theorem settled_run (host : Host σ) (hkeyed : b.selector.Keyed) {id : StreamId}
    {key : Poll.Key Peer} {peer : Peer} (hkey : b.selector.keys.find? id = some key)
    (hpeer : key.attachment = some peer) (h : Held (b.heard id) peer) :
    let events := (key.stream.read host.traced b.world).1
    let after := b.readPeer host.traced id
    (Tolerable (after.heard id) ∧ ReadEvent.failure? events = none ∧
        ∃ peer', after.peer? id = some peer' ∧ Held (after.heard id) peer') ∨
      (¬ (Tolerable (after.heard id) ∧ ReadEvent.failure? events = none) ∧ after.Gone id) := by
  intro events after
  have hheard := (tapes_readPeer host hkeyed hkey hpeer).2 id
  rw [if_pos rfl] at hheard
  rw [hheard]
  exact settled_readPeer hkey hpeer h

/-- What is kept of every connection of a broker is held. -/
theorem Course.held (hnumbers : host.Numbers issued) (h : Course host issued log b) :
    ∀ id peer, b.peer? id = some peer → Held (b.heard id) peer := by
  induction h with
  | begin hbegins =>
    intro id peer hpeer
    have hsound := hbegins.opened.sound
    exact absurd (hsound.1.placed hpeer) (hsound.2 id)
  | @phase log b p hcourse ih =>
    intro id peer' hpeer'
    have hkeyed := (hcourse.sound hnumbers).1.keyed
    by_cases hp : p = .read id
    · subst hp
      have hpeer' : (b.readPeer host.traced id).peer? id = some peer' := hpeer'
      rcases readPeer_cases host.traced b id with ⟨_, heq⟩ | ⟨key, peer, hkey, hpeer, _⟩
      · rw [heq] at hpeer'
        show Held ((b.readPeer host.traced id).heard id) peer'
        rw [heq]
        exact ih id peer' hpeer'
      · have hbefore := ih id peer (peer?_eq_some.mpr ⟨key, hkey, hpeer⟩)
        rcases settled_run host hkeyed hkey hpeer hbefore with ⟨_, _, held, hheld, h⟩ | ⟨_, hgone⟩
        · cases hheld.symm.trans hpeer'
          exact h
        · cases hgone.1.symm.trans hpeer'
    · rw [(heard_run host hkeyed p id).2 hp]
      rcases identity_run hnumbers hp hpeer' with ⟨peer, hpeer, hsame⟩ | ⟨hnew, rfl⟩
      · exact (ih id peer hpeer).congr hsame
      · rw [(hcourse.silent hnumbers hnew).1]
        exact held_new
  | outside world _ _ ih => exact ih

/-- Whatever has a place in the tables of a broker has delivered nothing
intolerable. -/
theorem Course.tolerable (hnumbers : host.Numbers issued) (h : Course host issued log b) :
    ∀ id, b.Placed id → Tolerable (b.heard id) := by
  induction h with
  | begin hbegins => exact fun id hid => absurd hid (hbegins.opened.sound.2 id)
  | @phase log b p hcourse ih =>
    intro id hid
    obtain ⟨hsound, hknown⟩ := hcourse.sound hnumbers
    by_cases hp : p = .read id
    · subst hp
      have hid : (b.readPeer host.traced id).Placed id := hid
      show Tolerable ((b.readPeer host.traced id).heard id)
      rcases readPeer_cases host.traced b id with ⟨_, heq⟩ | ⟨key, peer, hkey, hpeer, _⟩
      · rw [heq] at hid ⊢
        exact ih id hid
      · have hbefore := hcourse.held hnumbers id peer (peer?_eq_some.mpr ⟨key, hkey, hpeer⟩)
        rcases settled_run host hsound.keyed hkey hpeer hbefore with ⟨htolerable, _⟩ | ⟨_, hgone⟩
        · exact htolerable
        · exact absurd hid hgone.2
    · rw [(heard_run host hsound.keyed p id).2 hp]
      rcases Acts.placed hnumbers.traced hsound hknown (acts_run host.traced b p) hid
        with hid | hnew
      · exact ih id hid
      · rw [(hcourse.silent hnumbers hnew).1]
        exact tolerable_nil
  | outside world _ _ ih => exact ih

end Broker

open Broker in
/-- Whoever connects and whatever it delivers in whatever pieces, after a
broker has handled what was ready it keeps of a connection without a handshake
at most twenty bytes, all of them digits, and they are all that the connection
has delivered.  Of the connection of a worker it keeps what came behind the
last terminator, without a terminator and at most as much as a frame may have.
A connection that has delivered more than that has left no trace.  And reading
a connection, at any time, drops it for no other reason but the end of its
stream. -/
theorem kept_bytes_bounded {host : Host σ} {issued : σ → StreamId → Prop}
    {log : List (Broker (Traced σ) × Phase)} {b : Broker (Traced σ)}
    (hnumbers : host.Numbers issued) (h : Course host issued log b) :
    let after := (b.onReady host.traced).2
    (∀ id peer, after.pending.contains id = true → after.peer? id = some peer →
      peer.reader.unparsed = after.heard id ∧ peer.reader.unparsed.length ≤ 20 ∧
        peer.reader.unparsed.all Wire.isDigit = true) ∧
    (∀ uid id peer, after.peers.find? uid = some id → after.peer? id = some peer →
      (∃ length, parseHandshake (after.heard id) = .ok (some (uid, length)) ∧
        peer.reader.unparsed = residue ((after.heard id).drop length)) ∧
      terminator ∉ peer.reader.unparsed ∧
      peer.reader.unparsed.length ≤ peer.reader.limit ∧
      peer.reader.limit = 16 * 1024 * 1024) ∧
    (∀ id, ¬ Tolerable (after.heard id) → after.Gone id) ∧
    ∀ id key peer, b.selector.keys.find? id = some key → key.attachment = some peer →
      let read := b.readPeer host.traced id
      read.Gone id ↔ ¬ Tolerable (read.heard id) ∨
        ReadEvent.failure? (key.stream.read host.traced b.world).1 ≠ none := by
  intro after
  obtain ⟨log', hafter⟩ := h.onReady
  have hsound := (hafter.sound hnumbers).1
  have hheld := hafter.held hnumbers
  refine ⟨?_, ?_, ?_, ?_⟩
  · intro id peer hpending hpeer
    have hstranger : peer.uid = none := by
      rw [Option.eq_none_iff_forall_ne_some]
      exact fun uid huid => hsound.apart (hsound.workers hpeer huid) hpending
    obtain ⟨hunparsed, hparse⟩ := (hheld id peer hpeer).introduced.stranger hstranger
    obtain ⟨hlength, hdigits⟩ := Wire.parseHandshake_eq_none hparse
    rw [← hunparsed] at hlength hdigits
    exact ⟨hunparsed, Nat.le_of_lt_succ hlength, hdigits⟩
  · intro uid id peer hplace hpeer
    have hworker : peer.uid = some uid := by
      cases huid : peer.uid with
      | none => exact absurd (hsound.strangers hpeer huid) (hsound.apart hplace)
      | some uid' => rw [hsound.unshared _ _ _ (hsound.workers hpeer huid) hplace]
    have hkept := hheld id peer hpeer
    obtain ⟨_, length, hparse⟩ := hkept.introduced.worker hworker
    have htail := hkept.tail hparse
    refine ⟨⟨length, hparse, htail⟩, ?_, ?_, hkept.limit⟩
    · rw [htail]
      exact Wire.terminator_notMem_residue _
    · rw [htail, hkept.limit]
      cases hkept.tolerable with
      | stranger hnone => cases hparse.symm.trans hnone
      | worker hparse' _ hlength =>
        cases hparse.symm.trans hparse'
        exact hlength
  · intro id hnot
    refine ⟨?_, mt (hafter.tolerable hnumbers id) hnot⟩
    rw [Option.eq_none_iff_forall_ne_some]
    exact fun peer hpeer => hnot (hheld id peer hpeer).tolerable
  · intro id key peer hkey hpeer read
    have hbefore := h.held hnumbers id peer (peer?_eq_some.mpr ⟨key, hkey, hpeer⟩)
    rw [ne_eq, ← not_and_or]
    rcases settled_run host (h.sound hnumbers).1.keyed hkey hpeer hbefore
      with ⟨htolerable, hfailure, peer', hpeer', _⟩ | ⟨hnot, hgone⟩
    · refine iff_of_false (fun hgone => ?_) fun hnot => hnot ⟨htolerable, hfailure⟩
      cases hgone.1.symm.trans hpeer'
    · exact iff_of_true hgone hnot

open Broker in
/-- Three connections deliver something at once.  The first one delivers twenty
digits, which are kept.  The second one delivers a handshake, a frame and the
beginning of another one, which alone is kept.  The third one delivers
twenty-one digits and leaves no trace. -/
theorem kept_bytes_bounded_trickle :
    let digits (n : Nat) : Bytes := List.replicate n 0x31
    let hello : Envelope := ⟨⟨2⟩, .server, 0, .status { uid := ⟨2⟩, status := .waiting }⟩
    let joined := ((rehearsed.run rehearsal.traced .accept).run rehearsal.traced .accept).run
      rehearsal.traced .accept
    let b := (joined.run rehearsal.traced (.select none)).staged { arriving := [(⟨2⟩, digits 20),
      (⟨3⟩, Wire.handshake ⟨2⟩ ++ Wire.frame hello ++ [7, 7]), (⟨4⟩, digits 21)] }
    let after := (b.onReady rehearsal.traced).2
    (∃ log, Course rehearsal (fun s id => id.val.toNat < s.1) log b) ∧
      (∃ stranger, after.peer? ⟨2⟩ = some stranger ∧ stranger.reader.unparsed = digits 20) ∧
      (∃ worker, after.peer? ⟨3⟩ = some worker ∧ worker.reader.unparsed = [7, 7]) ∧
      after.inbox = [hello] ∧ after.Gone ⟨4⟩ := by
  intro digits hello joined b after
  have hcourse : ∃ log, Course rehearsal (fun s id => id.val.toNat < s.1) log b :=
    ⟨_, Course.staged (.phase (.select none) (.phase .accept (.phase .accept (.phase .accept
      (.begin begins_rehearsed))))) _⟩
  obtain ⟨log, hcourse⟩ := hcourse
  obtain ⟨hstranger, hworker, hgone, -⟩ := kept_bytes_bounded rehearsal_numbers hcourse
  have hpeers : (after.peer? ⟨2⟩).isSome = true ∧ (after.peer? ⟨3⟩).isSome = true := by
    decide +kernel
  obtain ⟨stranger, hpeer⟩ := Option.isSome_iff_exists.mp hpeers.1
  obtain ⟨worker, hpeer'⟩ := Option.isSome_iff_exists.mp hpeers.2
  refine ⟨⟨log, hcourse⟩, ⟨stranger, hpeer, ?_⟩, ⟨worker, hpeer', ?_⟩, by decide +kernel, ?_⟩
  · have hheard : after.heard ⟨2⟩ = digits 20 := by decide +kernel
    exact (hstranger ⟨2⟩ stranger (by decide +kernel) hpeer).1.trans hheard
  · obtain ⟨⟨length, hparse, htail⟩, _⟩ :=
      hworker ⟨2⟩ ⟨3⟩ worker (by decide +kernel) hpeer'
    have hparse' : parseHandshake (after.heard ⟨3⟩) = .ok (some (⟨2⟩, 2)) := by decide +kernel
    cases hparse'.symm.trans hparse
    exact htail.trans (by decide +kernel)
  · have hparse : parseHandshake (after.heard ⟨4⟩) = .error (.protocol .malformedHandshake) := by
      decide +kernel
    refine hgone ⟨4⟩ ?_
    rintro (hparse' | ⟨hparse', _⟩)
    · cases hparse.symm.trans hparse'
    · cases hparse.symm.trans hparse'

end Supervisor.Bus
