import Supervisor.Proofs.Bus.Connections

/-!
# What the streams of a broker take

A host can be taped: whenever a write call returns, the tape gets the bytes
that the stream took.  Taping a host changes nothing else, which the lemmas
with `untaped` say for each function that writes.

What a stream took and what still waits to be written to it make up an
account.  `Carries id bytes b b'` says that between `b` and `b'` the account
of `id` grew by `bytes`, as far as the connection was not lost on the way.
Writing moves bytes inside of the account (`carries_flushPeer`), and only a
frame that is handed to the worker of the connection adds to it
(`carries_deliver`).
-/

namespace Supervisor

open Wire (Bytes)

namespace Poll

/-- The bytes that streams took, one entry for each write call. -/
abbrev Tape := List (StreamId × Bytes)

/-- All bytes that a stream took. -/
def Tape.of (tape : Tape) (id : StreamId) : Bytes :=
  (tape.filter fun entry => entry.1 = id).flatMap (·.2)

theorem Tape.of_append (tape tape' : Tape) (id : StreamId) :
    Tape.of (tape ++ tape') id = tape.of id ++ tape'.of id := by
  unfold Tape.of
  rw [List.filter_append, List.flatMap_append]

theorem Tape.of_singleton (id id' : StreamId) (bytes : Bytes) :
    Tape.of [(id, bytes)] id' = if id = id' then bytes else [] := by
  by_cases h : id = id'
  · simp [Tape.of, h]
  · simp [Tape.of, h]

/-- What was taken of a buffer of which `rest` is left. -/
def taken (b rest : Bytes) : Bytes :=
  b.take (b.length - rest.length)

theorem taken_append {b rest : Bytes} (h : rest <:+ b) : taken b rest ++ rest = b := by
  obtain ⟨front, rfl⟩ := h
  unfold taken
  rw [List.length_append, Nat.add_sub_cancel, List.take_left]

theorem flush_suffix (b : Bytes) (events : List WriteEvent) : (flush b events).rest <:+ b := by
  fun_induction flush b events with
  | case1 => exact List.suffix_rfl
  | case2 => exact List.suffix_rfl
  | case3 => exact List.suffix_rfl
  | case4 _ _ _ ih => exact ih
  | case5 => exact List.suffix_rfl
  | case6 => exact List.suffix_rfl
  | case7 buffer n events _ _ ih => exact ih.trans (List.drop_suffix n buffer)

variable {σ : Type}

/-- A host with a tape. -/
def Host.taped (host : Host σ) : Host (σ × Tape) where
  poll entries timeout s :=
    let (r, world) := host.poll entries timeout s.1
    (r, world, s.2)
  incoming id s := host.incoming id s.1
  consume id n s := (host.consume id n s.1, s.2)
  write id b s :=
    let (events, world) := host.write id b s.1
    (events, world, s.2 ++ [(id, taken b (flush b events).rest)])
  accept id s :=
    let (events, world) := host.accept id s.1
    (events, world, s.2)
  close id s := (host.close id s.1, s.2)
  bind address shared s :=
    let (r, world) := host.bind address shared s.1
    (r, world, s.2)
  connect address s :=
    let (r, world) := host.connect address s.1
    (r, world, s.2)
  clock s := host.clock s.1
  present s := host.present s.1
  usage s := host.usage s.1
  sleep d s := (host.sleep d s.1, s.2)
  roll s :=
    let (r, world) := host.roll s.1
    (r, world, s.2)

theorem Stream.write_suffix (st : Stream) (b : Bytes) (host : Host σ) (s : σ) :
    (st.write b host s).1.rest <:+ b := by
  unfold Stream.write
  split
  · exact List.nil_suffix
  · split
    · exact List.suffix_rfl
    · exact flush_suffix b _

/-- A taped write has the outcome of the write, and the tape gets what the
stream took. -/
theorem Stream.write_taped (st : Stream) (b : Bytes) (host : Host σ) (s : σ × Tape) :
    (st.write b host.taped s).1 = (st.write b host s.1).1 ∧
      (st.write b host.taped s).2.1 = (st.write b host s.1).2 ∧
        ∀ id, (st.write b host.taped s).2.2.of id =
          s.2.of id ++ if st.id = id then taken b (st.write b host s.1).1.rest else [] := by
  unfold Stream.write
  split
  · rename_i hb
    rw [List.isEmpty_iff] at hb
    subst hb
    refine ⟨rfl, rfl, fun id => ?_⟩
    simp [taken]
  · split
    · refine ⟨rfl, rfl, fun id => ?_⟩
      simp [taken]
    · refine ⟨rfl, rfl, fun id => ?_⟩
      dsimp only [Host.taped]
      rw [Tape.of_append, Tape.of_singleton]

end Poll

namespace Bus.Broker

open Poll (Host Tape)

variable {σ : Type} {host : Host σ} {b b' b'' : Broker (σ × Tape)}

/-! ## A tape changes nothing else -/

/-- All that a stream took so far. -/
def took (b : Broker (σ × Tape)) (id : StreamId) : Bytes :=
  b.world.2.of id

/-- The account of a connection is what its stream took and what waits to be
written to it.  It grows by `bytes`, unless the connection is lost before they
are all written. -/
structure Carries (id : StreamId) (bytes : Bytes) (b b' : Broker (σ × Tape)) : Prop where
  absent : b.peer? id = none → b'.peer? id = none ∧ b'.took id = b.took id
  stays : ∀ peer peer', b.peer? id = some peer → b'.peer? id = some peer' →
    b'.took id ++ peer'.outbound = b.took id ++ peer.outbound ++ bytes
  ends : ∀ peer, b.peer? id = some peer → b'.took id <+: b.took id ++ peer.outbound ++ bytes

/-- Nothing is carried to a connection that stays as it is or is lost. -/
theorem Carries.of_took {id : StreamId}
    (hpeer : ∀ peer, b'.peer? id = some peer → b.peer? id = some peer)
    (htook : b'.took id = b.took id) : Carries id [] b b' where
  absent hnone := by
    refine ⟨Option.eq_none_iff_forall_ne_some.mpr fun peer h => ?_, htook⟩
    rw [hpeer peer h] at hnone
    cases hnone
  stays peer peer' h h' := by
    rw [hpeer peer' h'] at h
    cases h
    rw [htook, List.append_nil]
  ends peer h := by
    rw [htook, List.append_nil]
    exact List.prefix_append _ _

theorem Carries.of_peer {id : StreamId} {bytes : Bytes} {peer peer' : Peer}
    (hpeer : b.peer? id = some peer) (hpeer' : b'.peer? id = some peer')
    (haccount : b'.took id ++ peer'.outbound = b.took id ++ peer.outbound ++ bytes) :
    Carries id bytes b b' := by
  refine ⟨fun hnone => ?_, fun peer₀ peer₀' hpeer₀ hpeer₀' => ?_, fun peer₀ hpeer₀ => ?_⟩
  · rw [hpeer] at hnone
    cases hnone
  · cases hpeer.symm.trans hpeer₀
    cases hpeer'.symm.trans hpeer₀'
    exact haccount
  · cases hpeer.symm.trans hpeer₀
    exact haccount ▸ List.prefix_append _ _

theorem took_closeStream (b : Broker (σ × Tape)) (id id' : StreamId) :
    (b.closeStream host.taped id).took id' = b.took id' := by
  unfold took closeStream Poll.Selector.discard
  dsimp only
  split
  · rfl
  · dsimp only
    split
    · rfl
    · rfl

theorem Carries.refl (id : StreamId) (b : Broker (σ × Tape)) : Carries id [] b b :=
  .of_took (fun _ h => h) rfl

theorem Carries.trans {id : StreamId} {bytes bytes' : Bytes} (h : Carries id bytes b b')
    (h' : Carries id bytes' b' b'') : Carries id (bytes ++ bytes') b b'' := by
  refine ⟨fun hnone => ?_, fun peer peer'' hpeer hpeer'' => ?_, fun peer hpeer => ?_⟩
  · obtain ⟨hnone', htook⟩ := h.absent hnone
    obtain ⟨hnone'', htook'⟩ := h'.absent hnone'
    exact ⟨hnone'', htook'.trans htook⟩
  · cases hpeer' : b'.peer? id with
    | none =>
      rw [(h'.absent hpeer').1] at hpeer''
      cases hpeer''
    | some peer' =>
      rw [h'.stays peer' peer'' hpeer' hpeer'', h.stays peer peer' hpeer hpeer',
        List.append_assoc]
  · cases hpeer' : b'.peer? id with
    | none =>
      rw [(h'.absent hpeer').2, ← List.append_assoc]
      exact (h.ends peer hpeer).trans (List.prefix_append _ _)
    | some peer' =>
      rw [← List.append_assoc, ← h.stays peer peer' hpeer hpeer']
      exact h'.ends peer' hpeer'

/-- Only for a connection that is there do the bytes matter. -/
theorem Carries.congr {id : StreamId} {bytes bytes' : Bytes} (h : Carries id bytes b b')
    (heq : ∀ peer, b.peer? id = some peer → bytes = bytes') : Carries id bytes' b b' where
  absent := h.absent
  stays peer peer' hpeer hpeer' := heq peer hpeer ▸ h.stays peer peer' hpeer hpeer'
  ends peer hpeer := heq peer hpeer ▸ h.ends peer hpeer

/-- Whatever was to be written to a connection that is dropped, it takes
nothing more. -/
theorem carries_dropConnection (b : Broker (σ × Tape)) {id id' : StreamId} {bytes : Bytes}
    (hbytes : id' ≠ id → bytes = []) : Carries id' bytes b (b.dropConnection host.taped id) := by
  have htook : (b.dropConnection host.taped id).took id' = b.took id' := took_closeStream _ id id'
  by_cases hid : id' = id
  · have hnone : (b.dropConnection host.taped id).peer? id' = none := by
      rw [peer?_dropConnection, if_pos hid]
    refine ⟨fun _ => ⟨hnone, htook⟩, fun peer peer' _ hpeer' => ?_, fun peer _ => ?_⟩
    · rw [hnone] at hpeer'
      cases hpeer'
    · rw [htook, List.append_assoc]
      exact List.prefix_append _ _
  · rw [hbytes hid]
    refine .of_took (fun peer hpeer => ?_) htook
    rw [peer?_dropConnection, if_neg hid] at hpeer
    exact hpeer

/-- What waits to be written to a connection grows by some bytes. -/
theorem carries_note {id : StreamId} {peer : Peer} (hpeer : b.peer? id = some peer)
    (bytes : Bytes) (id' : StreamId) :
    Carries id' (if id = id' then bytes else []) b
      (b.setPeer id { peer with outbound := peer.outbound ++ bytes }) := by
  by_cases hid : id = id'
  · subst hid
    rw [if_pos rfl]
    refine .of_peer hpeer (peer?_setPeer_self hpeer) ?_
    exact (List.append_assoc _ _ _).symm
  · rw [if_neg hid]
    exact .of_took (fun _ h => peer?_setPeer_of_ne (Ne.symm hid) ▸ h) rfl

theorem carries_write (host : Host σ) (hkeyed : b.selector.Keyed) {id : StreamId}
    {key : Poll.Key Peer} {peer : Peer} (hkey : b.selector.keys.find? id = some key)
    (hpeer : b.peer? id = some peer) (id' : StreamId) :
    let out := key.stream.write peer.outbound host.taped b.world
    let asked := { b with world := out.2 }
    Carries id' [] b (asked.setPeer id { peer with outbound := out.1.rest }) := by
  intro out asked
  obtain ⟨hflushed, _, htape⟩ := key.stream.write_taped peer.outbound host b.world
  have hrest := Poll.taken_append (key.stream.write_suffix peer.outbound host b.world.1)
  rw [← hflushed] at hrest
  simp only [← hflushed, hkeyed id key hkey] at htape
  by_cases hid : id = id'
  · subst hid
    have htook := htape id
    rw [if_pos rfl] at htook
    refine .of_peer hpeer (peer?_setPeer_self hpeer) ?_
    show out.2.2.of id ++ out.1.rest = _
    rw [htook, List.append_assoc, hrest, List.append_nil]
    rfl
  · have htook := htape id'
    rw [if_neg hid, List.append_nil] at htook
    exact .of_took (fun _ h => peer?_setPeer_of_ne (Ne.symm hid) ▸ h) htook

/-- Writing moves bytes inside of an account. -/
theorem carries_flushPeer (hkeyed : b.selector.Keyed) (id id' : StreamId) :
    Carries id' [] b (b.flushPeer host.taped id) := by
  cases hpeer : b.peer? id with
  | none =>
    rw [flushPeer_of_none hpeer]
    exact .refl id' b
  | some peer =>
    obtain ⟨key, hkey, hattached⟩ := peer?_eq_some.mp hpeer
    have hwritten := carries_write host hkeyed hkey hpeer id'
    rcases flushPeer_cases host.taped hkey hattached
      with ⟨_, hdrop⟩ | ⟨_, selector, hselect, hthins⟩
    · rw [hdrop]
      exact hwritten.trans (carries_dropConnection _ fun _ => rfl)
    · rw [hselect]
      exact hwritten.trans (.of_took (fun _ h => hthins.attached h) rfl)

/-- A frame for a worker goes to the account of its connection. -/
theorem carries_deliver (hkeyed : b.selector.Keyed) (frame : Bytes) (uid : WorkerId)
    (id : StreamId) :
    Carries id (if b.peers.find? uid = some id then frame else []) b
      (deliver host.taped frame b uid) := by
  rcases deliver_cases host.taped frame b uid with ⟨hnone, h⟩ | ⟨id', hid', h⟩
  · rw [h, hnone, if_neg (by simp)]
    exact .refl id b
  · simp only [hid', Option.some_inj]
    rcases h with ⟨hkey, h⟩ | ⟨key, hkey, hnone, h⟩ | ⟨peer, hpeer, _, h⟩ | ⟨peer, hpeer, _, h⟩
    · rw [h]
      refine Carries.congr (.of_took (fun _ h => h) rfl) fun peer hpeer => (if_neg ?_).symm
      rintro rfl
      obtain ⟨key, hsome, _⟩ := peer?_eq_some.mp hpeer
      cases hkey.symm.trans hsome
    · rw [h]
      refine Carries.congr (.refl id b) fun peer hpeer => (if_neg ?_).symm
      rintro rfl
      obtain ⟨key', hkey', hsome⟩ := peer?_eq_some.mp hpeer
      cases hkey.symm.trans hkey'
      cases hnone.symm.trans hsome
    · rw [h]
      exact carries_dropConnection b fun hne => if_neg (Ne.symm hne)
    · rw [h, ← List.append_nil (if id' = id then frame else [])]
      exact (carries_note hpeer frame id).trans
        (carries_flushPeer (keyed_setPeer hkeyed id' _) id' id)

end Bus.Broker

end Supervisor
