import Supervisor.Proofs.Bus.Connections

/-!
# What a broker takes in

The functions that read, opened once.  `greet_cases`, `takeFrames_cases` and
`readPeer_cases` say all that can happen to a connection that is read, and
`fresh` what it adds to the queue.  Nothing else changes the mail of the broker
(`sameMail_greet`, `sameMail_accept`).
-/

namespace Supervisor.Bus.Broker

open Poll (Host)

variable {σ : Type} {host : Host σ}

/-! ## Reading -/

/-- The handshake of a connection: there is none yet or none any more, it is
rejected, or it makes the connection the one of a worker. -/
theorem greet_cases (host : Host σ) (b : Broker σ) (id : StreamId) (peer : Peer) :
    (b.greet host id peer = (some peer, b) ∧
        (peer.uid.isSome = true ∨ Wire.parseHandshake peer.reader.unparsed = .ok none)) ∨
      (b.greet host id peer = (none, b.dropConnection host id) ∧ peer.uid = none) ∨
      ∃ uid length, Wire.parseHandshake peer.reader.unparsed = .ok (some (uid, length)) ∧
        peer.uid = none ∧ uid.isServer = false ∧
          let peer' := { peer with uid := some uid, reader := peer.reader.consume length }
          b.greet host id peer = (some peer', (b.setPeer id peer').promote host id uid) := by
  unfold greet
  split
  · rename_i hsome
    exact Or.inl ⟨rfl, Or.inl hsome⟩
  · rename_i hnone
    have huid : peer.uid = none := Option.not_isSome_iff_eq_none.mp hnone
    split
    · rename_i hparse
      exact Or.inl ⟨rfl, Or.inr hparse⟩
    · rename_i uid length hparse
      right
      split
      · exact Or.inl ⟨rfl, huid⟩
      · rename_i hserver
        exact Or.inr ⟨uid, length, hparse, huid, Bool.eq_false_iff.mpr hserver, rfl⟩
    · exact Or.inr (Or.inl ⟨rfl, huid⟩)

/-- The envelopes in what a connection has delivered, as they are queued. -/
def fresh (host : Host σ) (b : Broker σ) (peer : Peer) : List Queued :=
  match peer.uid with
  | none => []
  | some uid => (envelopes uid peer.reader.drain.2.1).map fun e => ⟨e, host.clock b.world⟩

/-- The frames of a connection: nothing happens before its handshake.
Otherwise their envelopes are queued, and the connection is dropped or the
queue is cut to its bound. -/
theorem takeFrames_cases (host : Host σ) (b : Broker σ) (id : StreamId) (peer : Peer) :
    let queued := { b with queue := b.queue ++ b.fresh host peer }
    let noted := queued.setPeer id { peer with reader := peer.reader.drain.1 }
    (peer.uid = none ∧ b.takeFrames host id peer = (true, b)) ∨
      (peer.uid ≠ none ∧ b.takeFrames host id peer = (false, noted.dropConnection host id)) ∨
      (peer.uid ≠ none ∧ b.takeFrames host id peer = (true, noted.enforceBound)) := by
  intro queued noted
  cases huid : peer.uid with
  | none =>
    refine Or.inl ⟨rfl, ?_⟩
    unfold takeFrames
    rw [huid]
  | some uid =>
    right
    have hfresh : b.fresh host peer =
        (envelopes uid peer.reader.drain.2.1).map fun e => ⟨e, host.clock b.world⟩ := by
      unfold fresh
      rw [huid]
    simp only [noted, queued, hfresh, takeFrames, huid]
    cases peer.reader.drain.2.2 with
    | some failure => exact Or.inl ⟨Option.some_ne_none uid, rfl⟩
    | none => exact Or.inr ⟨Option.some_ne_none uid, rfl⟩

/-- What a connection delivers is noted. -/
def hear (host : Host σ) (b : Broker σ) (id : StreamId) (key : Poll.Key Peer) (peer : Peer) :
    Peer × Broker σ :=
  let (events, world) := key.stream.read host b.world
  let peer := { peer with reader := (peer.reader.readFrom events).1 }
  (peer, { b with world }.setPeer id peer)

/-- A connection is read: its handshake and its frames are looked for in what
it delivered, and it is dropped if its stream has ended. -/
theorem readPeer_cases (host : Host σ) (b : Broker σ) (id : StreamId) :
    (b.peer? id = none ∧ b.readPeer host id = b) ∨
      ∃ key peer, b.selector.keys.find? id = some key ∧ key.attachment = some peer ∧
        let heard := b.hear host id key peer
        let greeted := heard.2.greet host id heard.1
        (greeted.1 = none ∧ b.readPeer host id = greeted.2) ∨
          ∃ peer', greeted.1 = some peer' ∧
            let taken := greeted.2.takeFrames host id peer'
            (b.readPeer host id = taken.2 ∨
              b.readPeer host id = taken.2.dropConnection host id) := by
  cases hpeer? : b.peer? id with
  | none =>
    left
    refine ⟨rfl, ?_⟩
    unfold readPeer
    split
    · rfl
    · rename_i key hkey
      split
      · rfl
      · rename_i peer hpeer
        cases hpeer?.symm.trans (peer?_eq_some.mpr ⟨key, hkey, hpeer⟩)
  | some peer =>
    right
    obtain ⟨key, hkey, hpeer⟩ := peer?_eq_some.mp hpeer?
    refine ⟨key, peer, hkey, hpeer, ?_⟩
    intro heard greeted
    unfold readPeer
    rw [hkey]
    simp only [hpeer, greeted, heard, hear]
    generalize greet host _ id _ = greeted
    obtain ⟨_ | peer', b'⟩ := greeted
    · exact Or.inl ⟨rfl, rfl⟩
    · right
      refine ⟨peer', rfl, ?_⟩
      dsimp only
      generalize b'.takeFrames host id peer' = taken
      generalize (peer.reader.readFrom (key.stream.read host b.world).1).2 = outcome
      obtain ⟨stays, b''⟩ := taken
      cases stays <;> cases outcome <;> simp

/-! ## Mail -/

theorem sameMail_setPeer (b : Broker σ) (id : StreamId) (peer : Peer) :
    SameMail b (b.setPeer id peer) :=
  ⟨_, _, _, _, rfl⟩

theorem sameMail_promote (b : Broker σ) (id : StreamId) (uid : WorkerId) :
    SameMail b (b.promote host id uid) := by
  unfold promote
  dsimp only
  split
  · exact ⟨_, _, _, _, rfl⟩
  · split
    · exact ⟨_, _, _, _, rfl⟩
    · exact ⟨_, _, _, _, rfl⟩

theorem sameMail_greet (b : Broker σ) (id : StreamId) (peer : Peer) :
    SameMail b (b.greet host id peer).2 := by
  rcases greet_cases host b id peer with ⟨h, _⟩ | ⟨h, _⟩ | ⟨uid, length, _, _, _, h⟩
  · rw [h]
    exact .refl b
  · rw [h]
    exact sameMail_dropConnection b id
  · rw [h]
    exact (sameMail_setPeer b id _).trans (sameMail_promote _ id uid)

/-- Accepted connections come without mail. -/
theorem sameMail_enroll (events : List Poll.AcceptEvent) (b : Broker σ) :
    SameMail b (enroll events b).2 := by
  induction events generalizing b with
  | nil => exact .refl b
  | cons event events ih =>
    cases event with
    | failed failure => exact .refl b
    | connection id =>
      unfold enroll
      split
      · exact .refl b
      · rename_i selector _
        have hone : SameMail b { b with selector, pending := b.pending.insert id () } :=
          ⟨_, _, _, _, rfl⟩
        exact hone.trans (ih _)

theorem sameMail_accept (b : Broker σ) : SameMail b (b.accept host).2 := by
  unfold accept
  split
  · exact .refl b
  · rename_i key _
    have hworld : SameMail b { b with world := (key.stream.accept host b.world).2 } :=
      ⟨_, _, _, _, rfl⟩
    exact hworld.trans (sameMail_enroll _ _)

end Supervisor.Bus.Broker
