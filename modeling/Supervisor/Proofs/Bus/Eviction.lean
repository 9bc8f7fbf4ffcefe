import Supervisor.Proofs.Bus.Routing
import Supervisor.Sim.Exchange

/-!
# Recipients that are gone

A pass asks once who is connected, before the first envelope.  A connection
that breaks while a frame is handed to it is dropped at once, so a later
envelope of the same pass can be meant for a worker that is gone by then.

`recipients_connected_iff` says exactly when that happens.  The recipients of
an envelope are connected when it is its turn unless a frame of an earlier
envelope of the pass was handed to one of them and its connection did not
survive it (`Handing.Breaks`).  The envelope is used up all the same, which is
why it can reach some of its recipients only: `amount_reaches_part` is such a
run.

The proof follows the frames that are handed over, one by one (`handed`).
`peers_deliver` says what one of them does to the table of the workers.
-/

namespace Supervisor.Bus

open Wire (Bytes)
open Poll (Host)

variable {σ : Type}

/-- A frame is handed to a worker; the broker is as it was just before. -/
structure Handing (σ : Type) where
  broker : Broker σ
  uid : WorkerId
  frame : Bytes

/-- The connection of the worker does not survive it: its stream has no key,
too much waits to be written to it, or writing fails. -/
def Handing.Breaks (host : Host σ) (x : Handing σ) : Prop :=
  ∃ id, x.broker.peers.find? x.uid = some id ∧
    (x.broker.selector.keys.find? id = none ∨
      ∃ key peer, x.broker.selector.keys.find? id = some key ∧ key.attachment = some peer ∧
        (x.broker.outboundLimit < peer.outbound.length ∨
          (key.stream.write (peer.outbound ++ x.frame) host x.broker.world).1.failure ≠ none))

/-- For a connection that is registered, only its own state matters. -/
theorem Handing.breaks_iff {host : Host σ} {x : Handing σ} {id : StreamId} {key : Poll.Key Peer}
    {peer : Peer} (hid : x.broker.peers.find? x.uid = some id)
    (hkey : x.broker.selector.keys.find? id = some key) (hpeer : key.attachment = some peer) :
    x.Breaks host ↔ x.broker.outboundLimit < peer.outbound.length ∨
      (key.stream.write (peer.outbound ++ x.frame) host x.broker.world).1.failure ≠ none := by
  constructor
  · rintro ⟨id', hid', hbreaks⟩
    cases hid.symm.trans hid'
    rcases hbreaks with hnone | ⟨key', peer', hkey', hpeer', hbreaks⟩
    · cases hkey.symm.trans hnone
    · cases hkey.symm.trans hkey'
      cases hpeer.symm.trans hpeer'
      exact hbreaks
  · intro hbreaks
    exact ⟨id, hid, Or.inr ⟨key, peer, hkey, hpeer, hbreaks⟩⟩

namespace Broker

variable {host : Host σ} {b b' : Broker σ}

/-! ## One frame -/

/-- The table after a frame is handed over.  It changes only if the connection
breaks: the worker leaves it, or the stream with all that it was for. -/
theorem peers_deliver (host : Host σ) (frame : Bytes) (b : Broker σ) (uid : WorkerId) :
    (¬ Handing.Breaks host ⟨b, uid, frame⟩ ∧ (deliver host frame b uid).peers = b.peers) ∨
      (Handing.Breaks host ⟨b, uid, frame⟩ ∧ ∃ id, b.peers.find? uid = some id ∧
        ((deliver host frame b uid).peers = b.peers.erase uid ∨
          (deliver host frame b uid).peers = b.peers.filter fun _ st => st ≠ id)) := by
  rcases deliver_cases host frame b uid with ⟨hnone, h⟩ | ⟨id, hid, h⟩
  · left
    refine ⟨?_, congrArg (·.peers) h⟩
    rintro ⟨id, hid, _⟩
    cases hnone.symm.trans hid
  · rcases h with ⟨hkey, h⟩ | ⟨key, hkey, hnone, h⟩ | ⟨peer, hpeer, hlimit, h⟩ |
      ⟨peer, hpeer, hlimit, h⟩
    · right
      exact ⟨⟨id, hid, Or.inl hkey⟩, id, hid, Or.inl (congrArg (·.peers) h)⟩
    · left
      refine ⟨?_, congrArg (·.peers) h⟩
      rintro ⟨id', hid', hkey' | ⟨key', peer, hkey', hpeer, _⟩⟩
      · cases hid.symm.trans hid'
        cases hkey.symm.trans hkey'
      · cases hid.symm.trans hid'
        cases hkey.symm.trans hkey'
        cases hnone.symm.trans hpeer
    · right
      obtain ⟨key, hkey, hattached⟩ := peer?_eq_some.mp hpeer
      have hbreaks : Handing.Breaks host ⟨b, uid, frame⟩ :=
        (Handing.breaks_iff hid hkey hattached).mpr (Or.inl hlimit)
      exact ⟨hbreaks, id, hid, Or.inr (congrArg (·.peers) h)⟩
    · obtain ⟨key, hkey, hattached⟩ := peer?_eq_some.mp hpeer
      have hiff : Handing.Breaks host ⟨b, uid, frame⟩ ↔ _ := Handing.breaks_iff hid hkey hattached
      let peer' := { peer with outbound := peer.outbound ++ frame }
      let noted := b.setPeer id peer'
      have hnoted : noted.selector.keys.find? id = some { key with attachment := some peer' } := by
        show (b.selector.keys.modify id _).find? id = _
        rw [Table.find?_modify, if_pos rfl, hkey]
        rfl
      rcases flushPeer_cases host hnoted rfl
        with ⟨hfailure, hflush⟩ | ⟨hfailure, selector, hflush, _⟩
      · right
        exact ⟨hiff.mpr (Or.inr hfailure), id, hid, Or.inr (congrArg (·.peers) (h.trans hflush))⟩
      · left
        refine ⟨?_, congrArg (·.peers) (h.trans hflush)⟩
        rw [hiff, not_or]
        exact ⟨Nat.not_lt.mpr hlimit, fun hne => hne hfailure⟩

/-- A worker is left in the table unless a frame that is handed to it breaks
its connection. -/
theorem find?_deliver (hb : b.Unshared) (frame : Bytes) (uid uid' : WorkerId) (id' : StreamId) :
    (deliver host frame b uid).peers.find? uid' = some id' ↔
      b.peers.find? uid' = some id' ∧ (uid' = uid → ¬ Handing.Breaks host ⟨b, uid, frame⟩) := by
  rcases peers_deliver host frame b uid with ⟨hsafe, hpeers⟩ | ⟨hbreaks, id, hid, hpeers | hpeers⟩
  · rw [hpeers]
    exact ⟨fun hid' => ⟨hid', fun _ => hsafe⟩, And.left⟩
  · rw [hpeers, Table.find?_erase]
    by_cases huid : uid' = uid
    · simp [huid, hbreaks]
    · simp [huid]
  · rw [hpeers, Table.find?_filter, Option.filter_eq_some_iff, decide_eq_true_iff]
    refine and_congr_right fun hid' => ⟨?_, ?_⟩
    · rintro hne rfl
      exact absurd (Option.some.inj (hid'.symm.trans hid)) hne
    · rintro hsafe rfl
      exact hsafe (hb uid' uid id' hid' hid) hbreaks

/-! ## All frames of a pass -/

/-- One frame is handed to workers, one after another. -/
def handings (host : Host σ) (frame : Bytes) : List WorkerId → Broker σ → List (Handing σ)
  | [], _ => []
  | uid :: uids, b => ⟨b, uid, frame⟩ :: handings host frame uids (deliver host frame b uid)

/-- Everything that is handed over while envelopes are routed. -/
def handed (host : Host σ) (connected : List WorkerId) (now : Duration) :
    List Queued → Broker σ → List (Handing σ)
  | [], _ => []
  | q :: qs, b =>
    let (rolls, world) := host.roll b.world
    (match plan q.envelope connected rolls with
      | .recipients uids => handings host (Wire.frame q.envelope) uids { b with world }
      | _ => []) ++ handed host connected now qs (routeOne host connected now b q)

/-- No frame handed to a worker broke its connection. -/
def Spared (host : Host σ) (uid : WorkerId) (handed : List (Handing σ)) : Prop :=
  ∀ x ∈ handed, x.uid = uid → ¬ x.Breaks host

theorem spared_cons {uid : WorkerId} {x : Handing σ} {xs : List (Handing σ)} :
    Spared host uid (x :: xs) ↔ (uid = x.uid → ¬ x.Breaks host) ∧ Spared host uid xs := by
  unfold Spared
  rw [List.forall_mem_cons, eq_comm]

theorem spared_append {uid : WorkerId} {xs ys : List (Handing σ)} :
    Spared host uid (xs ++ ys) ↔ Spared host uid xs ∧ Spared host uid ys :=
  List.forall_mem_append

theorem find?_deliverAll (hb : b.Unshared) (frame : Bytes) (uids : List WorkerId)
    (uid : WorkerId) (id : StreamId) :
    (uids.foldl (deliver host frame) b).peers.find? uid = some id ↔
      b.peers.find? uid = some id ∧ Spared host uid (handings host frame uids b) := by
  induction uids generalizing b with
  | nil => simp [handings, Spared]
  | cons uid' uids ih =>
    have hthins : Thins b (deliver host frame b uid') := (moves_deliver frame b uid').thins
    rw [List.foldl_cons, ih (hthins.unshared hb), find?_deliver hb, handings, and_assoc]
    rw [spared_cons]

theorem find?_foldl (connected : List WorkerId) (now : Duration) (hb : b.Unshared)
    (qs : List Queued) (uid : WorkerId) (id : StreamId) :
    (qs.foldl (routeOne host connected now) b).peers.find? uid = some id ↔
      b.peers.find? uid = some id ∧ Spared host uid (handed host connected now qs b) := by
  induction qs generalizing b with
  | nil => simp [handed, Spared]
  | cons q qs ih =>
    have hthins := thins_routeOne host connected now b q
    rw [List.foldl_cons, ih (hthins.unshared hb), handed, spared_append, ← and_assoc]
    refine and_congr_left fun _ => ?_
    let rolled : Broker σ := { b with world := (host.roll b.world).2 }
    have hrolled : rolled.Unshared := hb
    unfold routeOne
    dsimp only
    cases plan q.envelope connected (host.roll b.world).1 with
    | recipients uids => exact find?_deliverAll hrolled _ uids uid id
    | requeue =>
      dsimp only
      split <;> simp [Spared]
    | atHome | drop => simp [Spared]

/-! ## One envelope of a pass -/

/-- The broker in the middle of a pass, after some of the envelopes. -/
def midway (host : Host σ) (b : Broker σ) (earlier : List Queued) : Broker σ :=
  earlier.foldl (routeOne host b.connected (host.clock b.world)) { b with queue := [] }

/-- Where the next envelope goes then. -/
def decision (host : Host σ) (b : Broker σ) (earlier : List Queued) (q : Queued) : Delivery :=
  plan q.envelope b.connected (host.roll (b.midway host earlier).world).1

/-- All that was handed over until then. -/
def handedBefore (host : Host σ) (b : Broker σ) (earlier : List Queued) : List (Handing σ) :=
  handed host b.connected (host.clock b.world) earlier { b with queue := [] }

theorem fates_append (connected : List WorkerId) (now : Duration) (qs qs' : List Queued)
    (b : Broker σ) :
    fates host connected now (qs ++ qs') b = fates host connected now qs b ++
      fates host connected now qs' (qs.foldl (routeOne host connected now) b) := by
  induction qs generalizing b with
  | nil => rfl
  | cons q qs ih =>
    rw [List.cons_append, fates, fates, ih, List.cons_append, List.foldl_cons]

theorem length_fates (host : Host σ) (connected : List WorkerId) (now : Duration) (qs : List Queued)
    (b : Broker σ) : (fates host connected now qs b).length = qs.length := by
  have hqs := congrArg List.length (map_fst_fates host connected now qs b)
  rwa [List.length_map] at hqs

/-- What a decision means for its envelope: the fate at its place in the queue. -/
theorem getElem?_passFates {earlier later : List Queued} {q : Queued}
    (hqueue : b.queue = earlier ++ q :: later) :
    (b.passFates host)[earlier.length]? = some (q, (b.decision host earlier q).fate
      (b.midway host earlier).requeue.ttl (host.clock b.world - q.since)) := by
  let emptied : Broker σ := { b with queue := [] }
  have hlength := length_fates host b.connected (host.clock b.world) earlier emptied
  rw [passFates, hqueue, fates_append, List.getElem?_append_right (Nat.le_of_eq hlength), hlength,
    Nat.sub_self]
  rfl

theorem recipients_subset {e : Envelope} {connected uids : List WorkerId} (h : connected.Nodup)
    (hrouted : Routed e connected (.recipients uids)) : uids ⊆ connected := by
  have hothers : others e.sender connected ⊆ connected := fun uid huid => ((mem_others h).mp huid).1
  cases hrouted with
  | all _ => exact hothers
  | any _ huid => exact List.cons_subset.mpr ⟨hothers huid, List.nil_subset _⟩
  | amount _ _ _ hsubset => exact List.Subset.trans hsubset hothers
  | selected _ _ hconnected => exact List.cons_subset.mpr ⟨hconnected, List.nil_subset _⟩

/-- The recipients of an envelope were connected when the pass began.  When it
is the turn of the envelope, they still are unless a frame of an earlier one
broke their connection.  Either way they are offered the frame, and the
envelope is not kept. -/
theorem recipients_connected_iff {earlier later : List Queued} {q : Queued} {uids : List WorkerId}
    (hb : b.Unshared) (hqueue : b.queue = earlier ++ q :: later)
    (hdecision : b.decision host earlier q = .recipients uids) :
    (b.passFates host)[earlier.length]? = some (q, .offered uids) ∧
      ∀ uid ∈ uids, uid ∈ b.connected ∧
        (uid ∈ (b.midway host earlier).connected ↔
          Spared host uid (b.handedBefore host earlier)) := by
  have hrouted : Routed q.envelope b.connected (.recipients uids) := by
    rw [← hdecision]
    exact routed_plan q.envelope b.peers.nodup_keys _
  constructor
  · rw [getElem?_passFates hqueue, hdecision]
    rfl
  · intro uid huid
    have hstart : uid ∈ b.connected := recipients_subset b.peers.nodup_keys hrouted huid
    obtain ⟨id, hid⟩ := mem_connected.mp hstart
    have hmidway : ∀ id, (b.midway host earlier).peers.find? uid = some id ↔ _ :=
      find?_foldl (b := { b with queue := [] }) b.connected (host.clock b.world) hb earlier uid
    refine ⟨hstart, ?_⟩
    rw [mem_connected]
    constructor
    · rintro ⟨id', hid'⟩
      exact ((hmidway id').mp hid').2
    · intro hspared
      exact ⟨id, (hmidway id).mpr ⟨hid, hspared⟩⟩

/-! ## Such a run -/

/-- Workers 2 and 3 are connected.  Worker 2 cuts its connection off, which the
broker has not noticed when two envelopes of the scheduler are submitted. -/
def cutOff (direct both : Envelope) : Sim.Exchange :=
  ((((Sim.Exchange.opened .standard {}).join ⟨2⟩).join ⟨3⟩).cut ⟨2⟩
    |>.submit Sim.World.host direct).submit Sim.World.host both

/-- Both workers are picked for the second envelope.  Worker 3 was handed nothing
before, and the frame that was handed to worker 2 broke its connection. -/
theorem recipients_connected_iff_cutOff :
    let direct : Envelope := ⟨.server, .selected, 2, .text "direct"⟩
    let both : Envelope := ⟨.server, .amount, 2, .text "both"⟩
    let b := cutOff direct both
    let q : Queued := ⟨direct, .ofSeconds 1⟩
    b.Unshared ∧ b.queue = [q] ++ ⟨both, .ofSeconds 1⟩ :: [] ∧
      b.decision Sim.World.host [q] ⟨both, .ofSeconds 1⟩ = .recipients [⟨3⟩, ⟨2⟩] ∧
      Spared Sim.World.host ⟨3⟩ (b.handedBefore Sim.World.host [q]) ∧
      ¬ Spared Sim.World.host ⟨2⟩ (b.handedBefore Sim.World.host [q]) := by
  intro direct both b q
  have hb : b.Unshared := unshared_of_values (by decide +kernel)
  have hqueue : b.queue = [q] ++ ⟨both, .ofSeconds 1⟩ :: [] := by decide +kernel
  have hdecision : b.decision Sim.World.host [q] ⟨both, .ofSeconds 1⟩ = .recipients [⟨3⟩, ⟨2⟩] := by
    decide +kernel
  obtain ⟨_, hconnected⟩ := recipients_connected_iff hb hqueue hdecision
  have hleft : ⟨3⟩ ∈ (b.midway Sim.World.host [q]).connected := by decide +kernel
  have hgone : ⟨2⟩ ∉ (b.midway Sim.World.host [q]).connected := by decide +kernel
  exact ⟨hb, hqueue, hdecision, (hconnected ⟨3⟩ (by decide)).2.mp hleft,
    fun hspared => hgone ((hconnected ⟨2⟩ (by decide)).2.mpr hspared)⟩

/-- Both workers are connected when the pass begins, and both are picked for
the second envelope.  The first one breaks the connection of worker 2, so only
worker 3 gets the second one, which is used up. -/
theorem amount_reaches_part :
    let direct : Envelope := ⟨.server, .selected, 2, .text "direct"⟩
    let both : Envelope := ⟨.server, .amount, 2, .text "both"⟩
    let b := cutOff direct both
    let q : Queued := ⟨direct, .ofSeconds 1⟩
    b.connected = [⟨2⟩, ⟨3⟩] ∧
      b.queue = [q, ⟨both, .ofSeconds 1⟩] ∧
      b.decision Sim.World.host [q] ⟨both, .ofSeconds 1⟩ = .recipients [⟨3⟩, ⟨2⟩] ∧
      (b.midway Sim.World.host [q]).connected = [⟨3⟩] ∧
      Sim.Exchange.heard (b.route Sim.World.host) ⟨4⟩ = some (Wire.frame both) ∧
      (b.route Sim.World.host).queue = [] := by
  decide +kernel

end Broker

end Supervisor.Bus
