import Mathlib.Data.List.Nodup
import Mathlib.Logic.Relation
import Supervisor.Bus.Broker
import Supervisor.Proofs.Poll.Selector
import Supervisor.Proofs.Table

/-!
# What happens to the connections of a broker

A connection has traces in three places: its stream is a key of the selector
with a `Peer` attached, and its id is in one of the two tables of the broker.
Whatever the broker does while it writes or routes, it only loses connections.
This module says so once, for all later proofs.

* `flushPeer_cases` and `deliver_cases` open the two functions that write.
* A `Move` is one step of the broker that adds no connection.  Writing and
  delivering are sequences of moves (`moves_flushPeer`, `moves_deliver`).
* Moves have three properties.  They thin out the connections
  (`Moves.thins`), they leave the envelopes and the rules of the broker alone
  (`Moves.sameMail`), and each changes the world by calls of the host only
  (`Move.calls`).
-/

namespace Supervisor

namespace Poll

variable {α σ : Type}

/-- One call that a broker makes of its host. -/
inductive Host.Call (host : Host σ) : σ → σ → Prop where
  | poll (entries : List PollEntry) (timeout : Option Duration) (s : σ) :
      Call host s (host.poll entries timeout s).2
  | consume (id : StreamId) (calls : Nat) (s : σ) : Call host s (host.consume id calls s)
  | write (id : StreamId) (b : Wire.Bytes) (s : σ) : Call host s (host.write id b s).2
  | accept (id : StreamId) (s : σ) : Call host s (host.accept id s).2
  | close (id : StreamId) (s : σ) : Call host s (host.close id s)
  | roll (s : σ) : Call host s (host.roll s).2

/-- What stands beside the state of a host is not called. -/
theorem Host.Call.fst_onSecond {ρ : Type} {host : Host σ} {s s' : ρ × σ}
    (h : host.onSecond.Call s s') : s'.1 = s.1 := by
  cases h with
  | poll | consume | write | accept | close | roll => rfl

/-- Calls of the host, one after another. -/
abbrev Host.Calls (host : Host σ) : σ → σ → Prop :=
  Relation.ReflTransGen host.Call

theorem Stream.calls_write (st : Stream) (b : Wire.Bytes) (host : Host σ) (s : σ) :
    host.Calls s (st.write b host s).2 := by
  unfold Stream.write
  split
  · exact .refl
  · split
    · exact .refl
    · exact .single (.write st.id b s)

theorem Stream.calls_read (st : Stream) (host : Host σ) (s : σ) :
    host.Calls s (st.read host s).2 := by
  unfold Stream.read
  split
  · exact .refl
  · exact .single (.consume st.id _ s)

theorem Stream.calls_accept (st : Stream) (host : Host σ) (s : σ) :
    host.Calls s (st.accept host s).2 := by
  unfold Stream.accept
  split
  · exact .refl
  · exact .single (.accept st.id s)

namespace Selector

/-- What is attached to the key of a stream. -/
def attached (sel : Selector α) (id : StreamId) : Option α :=
  (sel.keys.find? id).bind (·.attachment)

theorem attached_remove (sel : Selector α) (id id' : StreamId) :
    (sel.remove id).attached id' = if id' = id then none else sel.attached id' := by
  unfold attached remove
  rw [Table.find?_erase]
  split
  · rfl
  · rfl

theorem attached_attach (sel : Selector α) (id id' : StreamId) (a : α) :
    (sel.modify id fun key => { key with attachment := some a }).attached id' =
      if id' = id then (sel.keys.find? id').map fun _ => a else sel.attached id' := by
  unfold attached modify
  rw [Table.find?_modify]
  split
  · cases sel.keys.find? id' <;> rfl
  · rfl

theorem attached_register {sel sel' : Selector α} {st : Stream} {ops : Ops} {a : Option α}
    (h : sel.register st ops a = .ok sel') (id : StreamId) :
    sel'.attached id = if id = st.id then a else sel.attached id := by
  unfold register at h
  split at h
  · cases h
  · cases h
    unfold attached
    rw [Table.find?_insert]
    split
    · rfl
    · rfl

/-- Every key is kept under the id of its stream. -/
def Keyed (sel : Selector α) : Prop :=
  ∀ id key, sel.keys.find? id = some key → key.stream.id = id

/-- The keys of `sel'` are some of those of `sel`, with what is attached to them. -/
def Thins (sel sel' : Selector α) : Prop :=
  ∀ id key', sel'.keys.find? id = some key' → ∃ key, sel.keys.find? id = some key ∧
    key.stream.id = key'.stream.id ∧ key.attachment = key'.attachment

theorem Thins.refl (sel : Selector α) : sel.Thins sel :=
  fun _ key hkey => ⟨key, hkey, rfl, rfl⟩

theorem Thins.keyed {sel sel' : Selector α} (h : sel.Thins sel') (hkeyed : sel.Keyed) :
    sel'.Keyed := by
  intro id key' hkey'
  obtain ⟨key, hkey, hstream, _⟩ := h id key' hkey'
  exact hstream.symm.trans (hkeyed id key hkey)

theorem Thins.attached {sel sel' : Selector α} {id : StreamId} {a : α} (h : sel.Thins sel')
    (ha : sel'.attached id = some a) : sel.attached id = some a := by
  obtain ⟨key', hkey', hattached⟩ := Option.bind_eq_some_iff.mp ha
  obtain ⟨key, hkey, _, hattachment⟩ := h id key' hkey'
  exact Option.bind_eq_some_iff.mpr ⟨key, hkey, hattachment.trans hattached⟩

theorem thins_remove (sel : Selector α) (id : StreamId) : sel.Thins (sel.remove id) := by
  intro id' key' hkey'
  have hfind : (sel.remove id).keys.find? id' = _ := Table.find?_erase sel.keys id id'
  rw [hfind] at hkey'
  split at hkey'
  · cases hkey'
  · exact ⟨key', hkey', rfl, rfl⟩

/-- Replacing a key by one of the same stream keeps what is attached. -/
theorem thins_insert {sel : Selector α} {id : StreamId} {key key' : Key α}
    (hkey : sel.keys.find? id = some key) (hstream : key.stream.id = key'.stream.id)
    (hattachment : key.attachment = key'.attachment) :
    sel.Thins { sel with keys := sel.keys.insert id key' } := by
  intro id' key'' hkey''
  rw [Table.find?_insert] at hkey''
  split at hkey''
  · rename_i hid
    cases hkey''
    exact ⟨key, hid ▸ hkey, hstream, hattachment⟩
  · exact ⟨key'', hkey'', rfl, rfl⟩

theorem thins_reregister {sel sel' : Selector α} {id : StreamId} {ops : Ops}
    (h : sel.reregister id ops = .ok sel') : sel.Thins sel' := by
  unfold reregister at h
  split at h
  · cases h
  · rename_i key hkey
    split at h
    · cases h
    · cases h
      exact thins_insert hkey rfl rfl

/-- Whoever withdraws interest may lose the key. -/
theorem thins_unregister {sel : Selector α} {r : Selector α × Option Stream} {id : StreamId}
    {ops : Ops} (h : sel.unregister id ops = .ok r) : sel.Thins r.1 := by
  unfold unregister at h
  split at h
  · cases h
  · rename_i key hkey
    dsimp only at h
    split at h
    · cases h
      exact thins_remove sel id
    · cases h
      exact thins_insert hkey rfl rfl

theorem calls_discard (sel : Selector α) (id : StreamId) (host : Host σ) (s : σ) :
    host.Calls s (sel.discard id host s).2 := by
  unfold discard
  split
  · exact .refl
  · dsimp only
    split
    · exact .refl
    · exact .single (.close id s)

end Selector

end Poll

namespace Bus.Broker

open Wire (Bytes)
open Poll (Host Selector)

variable {σ : Type} {host : Host σ} {b b' b'' : Broker σ}

/-! ## Writing -/

theorem mem_connected {uid : WorkerId} :
    uid ∈ b.connected ↔ ∃ id, b.peers.find? uid = some id := by
  rw [connected, ← Table.contains_iff, Table.contains, Option.isSome_iff_exists]

theorem peer?_eq_some {id : StreamId} {peer : Peer} :
    b.peer? id = some peer ↔
      ∃ key, b.selector.keys.find? id = some key ∧ key.attachment = some peer :=
  Option.bind_eq_some_iff

theorem peer?_setPeer (b : Broker σ) (id id' : StreamId) (peer : Peer) :
    (b.setPeer id peer).peer? id' =
      if id' = id then (b.selector.keys.find? id').map fun _ => peer else b.peer? id' :=
  Selector.attached_attach b.selector id id' peer

theorem peer?_setPeer_self {id : StreamId} {peer peer' : Peer} (h : b.peer? id = some peer) :
    (b.setPeer id peer').peer? id = some peer' := by
  obtain ⟨key, hkey, _⟩ := peer?_eq_some.mp h
  rw [peer?_setPeer, if_pos rfl, hkey]
  rfl

theorem peer?_setPeer_of_ne {id id' : StreamId} {peer : Peer} (h : id' ≠ id) :
    (b.setPeer id peer).peer? id' = b.peer? id' := by
  rw [peer?_setPeer, if_neg h]

theorem keyed_setPeer (h : b.selector.Keyed) (id : StreamId) (peer : Peer) :
    (b.setPeer id peer).selector.Keyed := by
  intro id' key' hkey'
  have hfind : (b.setPeer id peer).selector.keys.find? id' = _ := Table.find?_modify _ id id' _
  rw [hfind] at hkey'
  split at hkey'
  · obtain ⟨key, hkey, rfl⟩ := Option.map_eq_some_iff.mp hkey'
    exact h id' key hkey
  · exact h id' key' hkey'

theorem selector_closeStream (b : Broker σ) (id : StreamId) :
    (b.closeStream host id).selector = b.selector.remove id :=
  Selector.discard_fst b.selector id host b.world

theorem keyed_closeStream (h : b.selector.Keyed) (id : StreamId) :
    (b.closeStream host id).selector.Keyed := by
  rw [selector_closeStream]
  exact (Selector.thins_remove b.selector id).keyed h

theorem peer?_closeStream (b : Broker σ) (id id' : StreamId) :
    (b.closeStream host id).peer? id' = if id' = id then none else b.peer? id' := by
  unfold peer?
  rw [selector_closeStream]
  exact Selector.attached_remove b.selector id id'

theorem peer?_dropConnection (b : Broker σ) (id id' : StreamId) :
    (b.dropConnection host id).peer? id' = if id' = id then none else b.peer? id' :=
  peer?_closeStream _ id id'

theorem keyed_dropConnection (h : b.selector.Keyed) (id : StreamId) :
    (b.dropConnection host id).selector.Keyed :=
  keyed_closeStream h id

theorem peers_dropConnection (b : Broker σ) (id : StreamId) (uid : WorkerId) :
    (b.dropConnection host id).peers.find? uid = (b.peers.find? uid).filter (· ≠ id) :=
  Table.find?_filter b.peers _ uid

theorem pending_dropConnection (b : Broker σ) (id id' : StreamId) :
    (b.dropConnection host id).pending.contains id' = true ↔
      id' ≠ id ∧ b.pending.contains id' = true :=
  Table.contains_erase b.pending id id'

theorem flushPeer_of_none {id : StreamId} (h : b.peer? id = none) : b.flushPeer host id = b := by
  unfold flushPeer
  split
  · rfl
  · rename_i key hkey
    split
    · rfl
    · rename_i peer hpeer
      rw [peer?_eq_some.mpr ⟨key, hkey, hpeer⟩] at h
      cases h

/-- A connection is flushed: what its stream takes is written.  Then it is
dropped if that failed, and otherwise at most its interest changes. -/
theorem flushPeer_cases (host : Host σ) {b : Broker σ} {id : StreamId} {key : Poll.Key Peer}
    {peer : Peer} (hkey : b.selector.keys.find? id = some key)
    (hpeer : key.attachment = some peer) :
    let out := key.stream.write peer.outbound host b.world
    let written := { b with world := out.2 }.setPeer id { peer with outbound := out.1.rest }
    (out.1.failure ≠ none ∧ b.flushPeer host id = written.dropConnection host id) ∨
      (out.1.failure = none ∧ ∃ selector, b.flushPeer host id = { written with selector } ∧
        written.selector.Thins selector) := by
  intro out written
  unfold flushPeer
  rw [hkey]
  simp only [hpeer]
  cases hfailure : out.1.failure with
  | some failure =>
    left
    exact ⟨Option.some_ne_none failure, rfl⟩
  | none =>
    right
    refine ⟨rfl, ?_⟩
    dsimp only
    have same : ∃ selector, written = { written with selector } ∧ written.selector.Thins selector :=
      ⟨written.selector, rfl, Selector.Thins.refl _⟩
    split
    · split
      · split
        · rename_i selector _ hunregister
          exact ⟨selector, rfl, Selector.thins_unregister hunregister⟩
        · exact same
      · exact same
    · split
      · rename_i selector hreregister
        exact ⟨selector, rfl, Selector.thins_reregister hreregister⟩
      · exact same

/-- A frame is handed to a worker.  Nothing happens if the worker is not
connected, and it is forgotten if its stream is not registered. -/
theorem deliver_cases (host : Host σ) (frame : Bytes) (b : Broker σ) (uid : WorkerId) :
    (b.peers.find? uid = none ∧ deliver host frame b uid = b) ∨
      ∃ id, b.peers.find? uid = some id ∧
        ((b.selector.keys.find? id = none ∧
            deliver host frame b uid = { b with peers := b.peers.erase uid }) ∨
          (∃ key, b.selector.keys.find? id = some key ∧ key.attachment = none ∧
            deliver host frame b uid = b) ∨
          (∃ peer, b.peer? id = some peer ∧ b.outboundLimit < peer.outbound.length ∧
            deliver host frame b uid = b.dropConnection host id) ∨
          ∃ peer, b.peer? id = some peer ∧ peer.outbound.length ≤ b.outboundLimit ∧
            let noted := b.setPeer id { peer with outbound := peer.outbound ++ frame }
            deliver host frame b uid = noted.flushPeer host id) := by
  unfold deliver
  split
  · rename_i hnone
    exact Or.inl ⟨hnone, rfl⟩
  · rename_i id hid
    right
    refine ⟨id, hid, ?_⟩
    split
    · rename_i hkey
      exact Or.inl ⟨hkey, rfl⟩
    · rename_i key hkey
      right
      split
      · rename_i hpeer
        have hnone : b.peer? id = none := by
          unfold peer?
          rw [hkey]
          exact hpeer
        exact Or.inl ⟨key, hkey, hpeer, flushPeer_of_none hnone⟩
      · rename_i peer hpeer
        right
        have hsome : b.peer? id = some peer := peer?_eq_some.mpr ⟨key, hkey, hpeer⟩
        split
        · rename_i hlimit
          exact Or.inl ⟨peer, hsome, hlimit, rfl⟩
        · rename_i hlimit
          exact Or.inr ⟨peer, hsome, Nat.le_of_not_lt hlimit, rfl⟩

/-! ## Moves -/

/-- One step of a broker that adds no connection. -/
inductive Move (host : Host σ) : Broker σ → Broker σ → Prop where
  | call {b : Broker σ} {world : σ} : host.Calls b.world world → Move host b { b with world }
  /-- What is known of a connection changes, but not its worker. -/
  | note {b : Broker σ} {id : StreamId} {peer peer' : Peer} :
      b.peer? id = some peer → peer'.uid = peer.uid → Move host b (b.setPeer id peer')
  | select {b : Broker σ} {selector : Selector Peer} :
      b.selector.Thins selector → Move host b { b with selector }
  | close (b : Broker σ) (id : StreamId) : Move host b (b.closeStream host id)
  | drop (b : Broker σ) (id : StreamId) : Move host b (b.dropConnection host id)
  /-- A worker is forgotten whose stream has no key. -/
  | forget {b : Broker σ} {uid : WorkerId} {id : StreamId} :
      b.peers.find? uid = some id → b.selector.keys.find? id = none →
      Move host b { b with peers := b.peers.erase uid }

/-- Moves, one after another. -/
abbrev Moves (host : Host σ) : Broker σ → Broker σ → Prop :=
  Relation.ReflTransGen (Move host)

theorem moves_flushPeer (b : Broker σ) (id : StreamId) : Moves host b (b.flushPeer host id) := by
  cases hpeer : b.peer? id with
  | none =>
    rw [flushPeer_of_none hpeer]
  | some peer =>
    obtain ⟨key, hkey, hattached⟩ := peer?_eq_some.mp hpeer
    let out := key.stream.write peer.outbound host b.world
    let asked : Broker σ := { b with world := out.2 }
    have hcalls : Move host b asked := .call (key.stream.calls_write _ host b.world)
    have hnote : Move host asked (asked.setPeer id { peer with outbound := out.1.rest }) :=
      .note hpeer rfl
    have hwritten := (Relation.ReflTransGen.single hcalls).tail hnote
    rcases flushPeer_cases host hkey hattached with ⟨_, hdrop⟩ | ⟨_, selector, hselect, hthins⟩
    · rw [hdrop]
      exact hwritten.tail (.drop _ id)
    · rw [hselect]
      exact hwritten.tail (.select hthins)

theorem moves_deliver (frame : Bytes) (b : Broker σ) (uid : WorkerId) :
    Moves host b (deliver host frame b uid) := by
  rcases deliver_cases host frame b uid with ⟨_, h⟩ | ⟨id, hid, h⟩
  · rw [h]
  · rcases h with ⟨hkey, h⟩ | ⟨_, _, _, h⟩ | ⟨peer, _, _, h⟩ | ⟨peer, hpeer, _, h⟩
    · rw [h]
      exact .single (.forget hid hkey)
    · rw [h]
    · rw [h]
      exact .single (.drop b id)
    · rw [h]
      have hnote : Move host b (b.setPeer id { peer with outbound := peer.outbound ++ frame }) :=
        .note hpeer rfl
      exact .head hnote (moves_flushPeer _ id)

theorem moves_foldl {α : Type} {f : Broker σ → α → Broker σ} (h : ∀ b x, Moves host b (f b x))
    (xs : List α) (b : Broker σ) : Moves host b (xs.foldl f b) := by
  induction xs generalizing b with
  | nil => exact .refl
  | cons x xs ih => exact (h b x).trans (ih (f b x))

/-! ## Moves thin out the connections -/

/-- The connections of `b'` are some of those of `b`. -/
structure Thins (b b' : Broker σ) : Prop where
  keyed : b.selector.Keyed → b'.selector.Keyed
  peers : ∀ {uid id}, b'.peers.find? uid = some id → b.peers.find? uid = some id
  pending : ∀ {id}, b'.pending.contains id = true → b.pending.contains id = true
  /-- A key that is left belongs to the same worker and has its place in the tables. -/
  key : ∀ {id peer'}, b'.peer? id = some peer' →
    (∃ peer, b.peer? id = some peer ∧ peer.uid = peer'.uid) ∧
      (b.pending.contains id = true → b'.pending.contains id = true) ∧
        ∀ {uid}, b.peers.find? uid = some id → b'.peers.find? uid = some id

/-- Only the selector has lost something. -/
theorem Thins.of_selector (hpeers : b'.peers = b.peers) (hpending : b'.pending = b.pending)
    (hselector : b.selector.Thins b'.selector) : Thins b b' where
  keyed := hselector.keyed
  peers h := hpeers ▸ h
  pending h := hpending ▸ h
  key {_ peer'} h :=
    ⟨⟨peer', hselector.attached h, rfl⟩, fun hid => hpending ▸ hid, fun hid => hpeers ▸ hid⟩

/-- Whatever else changes, the connections stay. -/
theorem Thins.of_eq (hpeers : b'.peers = b.peers) (hpending : b'.pending = b.pending)
    (hselector : b'.selector = b.selector) : Thins b b' :=
  .of_selector hpeers hpending (hselector ▸ Selector.Thins.refl b.selector)

theorem Thins.refl (b : Broker σ) : Thins b b :=
  .of_eq rfl rfl rfl

theorem Thins.trans (h : Thins b b') (h' : Thins b' b'') : Thins b b'' where
  keyed hkeyed := h'.keyed (h.keyed hkeyed)
  peers hid := h.peers (h'.peers hid)
  pending hid := h.pending (h'.pending hid)
  key hpeer := by
    obtain ⟨⟨peer', hpeer', huid'⟩, hpending', hpeers'⟩ := h'.key hpeer
    obtain ⟨⟨peer, hpeer, huid⟩, hpending, hpeers⟩ := h.key hpeer'
    exact ⟨⟨peer, hpeer, huid.trans huid'⟩, fun hid => hpending' (hpending hid),
      fun hid => hpeers' (hpeers hid)⟩

theorem thins_setPeer {id : StreamId} {peer peer' : Peer} (hpeer : b.peer? id = some peer)
    (huid : peer'.uid = peer.uid) : Thins b (b.setPeer id peer') where
  keyed hkeyed := keyed_setPeer hkeyed id peer'
  peers h := h
  pending h := h
  key {id' peer''} h := by
    refine ⟨?_, fun h => h, fun h => h⟩
    by_cases hid : id' = id
    · subst hid
      rw [peer?_setPeer_self hpeer] at h
      cases h
      exact ⟨peer, hpeer, huid.symm⟩
    · rw [peer?_setPeer_of_ne hid] at h
      exact ⟨peer'', h, rfl⟩

theorem thins_dropConnection (b : Broker σ) (id : StreamId) :
    Thins b (b.dropConnection host id) where
  keyed hkeyed := keyed_dropConnection hkeyed id
  peers h := by
    rw [peers_dropConnection, Option.filter_eq_some_iff] at h
    exact h.1
  pending h := ((pending_dropConnection _ _ _).mp h).2
  key {id' peer'} h := by
    rw [peer?_dropConnection] at h
    split at h
    · cases h
    · rename_i hid
      refine ⟨⟨peer', h, rfl⟩, fun h => (pending_dropConnection _ _ _).mpr ⟨hid, h⟩, ?_⟩
      intro uid h
      rw [peers_dropConnection, h]
      exact Option.filter_eq_some_iff.mpr ⟨rfl, decide_eq_true hid⟩

/-- A worker whose stream has no key may be forgotten. -/
theorem thins_erase {uid : WorkerId} {id : StreamId} (hid : b.peers.find? uid = some id)
    (hkey : b.selector.keys.find? id = none) : Thins b { b with peers := b.peers.erase uid } where
  keyed h := h
  peers h := by
    rw [Table.find?_erase] at h
    split at h
    · cases h
    · exact h
  pending h := h
  key {id' peer'} h := by
    refine ⟨⟨peer', h, rfl⟩, fun h => h, ?_⟩
    intro uid' huid'
    have hne : uid' ≠ uid := by
      rintro rfl
      obtain ⟨key, hkey', _⟩ := peer?_eq_some.mp h
      cases hid.symm.trans huid'
      cases hkey.symm.trans hkey'
    exact ((Table.find?_erase b.peers uid uid').trans (if_neg hne)).trans huid'

theorem Move.thins (h : Move host b b') : Thins b b' := by
  cases h with
  | call _ => exact .of_eq rfl rfl rfl
  | note hpeer huid => exact thins_setPeer hpeer huid
  | select hthins => exact .of_selector rfl rfl hthins
  | close id =>
    refine .of_selector rfl rfl ?_
    rw [selector_closeStream]
    exact Selector.thins_remove b.selector id
  | drop id => exact thins_dropConnection b id
  | forget hid hkey => exact thins_erase hid hkey

theorem Moves.thins (h : Moves host b b') : Thins b b' := by
  induction h with
  | refl => exact Thins.refl b
  | tail _ hmove ih => exact ih.trans hmove.thins

/-- No stream belongs to two workers. -/
def Unshared (b : Broker σ) : Prop :=
  ∀ uid uid' id, b.peers.find? uid = some id → b.peers.find? uid' = some id → uid = uid'

theorem unshared_of_values (h : b.peers.values.Nodup) : b.Unshared := by
  intro uid uid' id hid hid'
  have hentry := Table.find?_eq_some_iff.mp hid
  have hentry' := Table.find?_eq_some_iff.mp hid'
  exact congrArg Prod.fst (List.inj_on_of_nodup_map h hentry hentry' rfl)

theorem Thins.unshared (h : Thins b b') (hb : b.Unshared) : b'.Unshared :=
  fun uid uid' id hid hid' => hb uid uid' id (h.peers hid) (h.peers hid')

/-! ## Moves leave the rest alone -/

/-- Only connections and the world differ. -/
def SameMail (b b' : Broker σ) : Prop :=
  ∃ peers pending selector world, b' = { b with peers, pending, selector, world }

theorem SameMail.refl (b : Broker σ) : SameMail b b :=
  ⟨b.peers, b.pending, b.selector, b.world, rfl⟩

theorem SameMail.trans (h : SameMail b b') (h' : SameMail b' b'') : SameMail b b'' := by
  obtain ⟨_, _, _, _, rfl⟩ := h
  obtain ⟨peers, pending, selector, world, rfl⟩ := h'
  exact ⟨peers, pending, selector, world, rfl⟩

theorem sameMail_dropConnection (b : Broker σ) (id : StreamId) :
    SameMail b (b.dropConnection host id) :=
  ⟨_, _, _, _, rfl⟩

theorem Move.sameMail (h : Move host b b') : SameMail b b' := by
  cases h with
  | call | note | select | close | forget => exact ⟨_, _, _, _, rfl⟩
  | drop id => exact sameMail_dropConnection b id

theorem Moves.sameMail (h : Moves host b b') : SameMail b b' := by
  induction h with
  | refl => exact SameMail.refl b
  | tail _ hmove ih => exact ih.trans hmove.sameMail

theorem Move.calls (h : Move host b b') : host.Calls b.world b'.world := by
  cases h with
  | call hcalls => exact hcalls
  | note | select | forget => exact .refl
  | close id => exact Selector.calls_discard b.selector id host b.world
  | drop id => exact Selector.calls_discard b.selector id host b.world

end Bus.Broker

end Supervisor
