import Supervisor.Proofs.Bus.Phases
import Supervisor.Proofs.Scheduler.Reports
import Supervisor.Proofs.Wire.Following
import Supervisor.Proofs.Wire.Handshake

/-!
# A worker speaks for itself

Whoever connects may write what it likes: frames that name another sender,
reports of other workers, a second handshake.  The broker believes the first
handshake only.

`Introduced` is the invariant.  It ties what is known of a connection to the
bytes that the connection has delivered so far: before the handshake all of
them are unparsed, and afterwards the worker is the one of the handshake that
they begin with.  Reading keeps it (`Introduced.greet`, `Introduced.drained`),
and so does every phase of a broker (`Course.introduced`), because all others
leave the worker and the unparsed bytes of a connection alone (`identity_run`).

So `peers_speak_for_themselves`: what a connection adds to the queue has the
worker of its handshake as its sender, and when the scheduler takes such an
envelope in, the records of all other workers stay as they are.
-/

namespace Supervisor.Bus

open Poll (Host Ops Selector Traced)
open Wire (Bytes FrameBuffer ReadEvent parseHandshake)

/-- The bytes that a connection has delivered say who is behind it. -/
structure Introduced (bytes : Bytes) (peer : Peer) : Prop where
  tidy : peer.reader.Tidy
  stranger : peer.uid = none →
    peer.reader.unparsed = bytes ∧ parseHandshake bytes = .ok none
  worker : ∀ {uid}, peer.uid = some uid →
    uid.isServer = false ∧ ∃ length, parseHandshake bytes = .ok (some (uid, length))

/-- A new connection has delivered nothing. -/
theorem introduced_new : Introduced [] {} where
  tidy := FrameBuffer.tidy_empty _
  stranger _ := ⟨rfl, rfl⟩
  worker h := nomatch h

/-- What identifies a connection. -/
def identity (_ : Ops) (peer : Peer) : Option WorkerId × FrameBuffer :=
  (peer.uid, peer.reader)

theorem Introduced.congr {bytes : Bytes} {peer peer' : Peer} {ops ops' : Ops}
    (h : Introduced bytes peer) (hsame : identity ops' peer' = identity ops peer) :
    Introduced bytes peer' := by
  obtain ⟨huid, hreader⟩ := Prod.mk.inj hsame
  constructor
  · rw [hreader]
    exact h.tidy
  · rw [huid, hreader]
    exact h.stranger
  · rw [huid]
    exact h.worker

/-- Draining the frames of a worker changes nothing about who it is. -/
theorem Introduced.drained {bytes : Bytes} {peer : Peer} (h : Introduced bytes peer)
    (huid : peer.uid ≠ none) : Introduced bytes { peer with reader := peer.reader.drain.1 } where
  tidy := h.tidy.drain
  stranger hnone := absurd hnone huid
  worker hsome := h.worker hsome

variable {σ : Type} {host : Host σ}

/-- A connection that delivers more is introduced by all that it has delivered,
as long as it is not dropped. -/
theorem Introduced.greet {bytes more : Bytes} {peer peer' : Peer} (h : Introduced bytes peer)
    {b : Broker σ} {id : StreamId}
    (hgreet : (b.greet host id { peer with reader := peer.reader.feed more }).1 = some peer') :
    Introduced (bytes ++ more) peer' := by
  have htidy : (peer.reader.feed more).Tidy := h.tidy.feed more
  have hunparsed : peer.uid = none → (peer.reader.feed more).unparsed = bytes ++ more := by
    intro hnone
    rw [h.tidy.unparsed_feed, (h.stranger hnone).1]
  rcases Broker.greet_cases host b id { peer with reader := peer.reader.feed more }
    with ⟨heq, hsome⟩ | ⟨heq, _⟩ | ⟨uid, length, hparse, hnone, hserver, heq⟩
  · rw [heq] at hgreet
    cases hgreet
    refine ⟨htidy, fun hnone => ⟨hunparsed hnone, ?_⟩, fun huid => ?_⟩
    · rcases hsome with hsome | hparse
      · rw [hnone] at hsome
        cases hsome
      · rwa [hunparsed hnone] at hparse
    · obtain ⟨hserver, length, hparse⟩ := h.worker huid
      exact ⟨hserver, length, Wire.parseHandshake_append hparse more⟩
  · rw [heq] at hgreet
    cases hgreet
  · rw [heq] at hgreet
    cases hgreet
    rw [hunparsed hnone] at hparse
    refine ⟨FrameBuffer.tidy_consume _ _, fun h => (nomatch h), fun huid => ?_⟩
    cases huid
    exact ⟨hserver, length, hparse⟩

namespace Broker

/-! ## Writing and routing identify nobody -/

theorem keeps_flushPeer (b : Broker σ) (id : StreamId) :
    Keeps identity b (b.flushPeer host id) := by
  cases hpeer : b.peer? id with
  | none =>
    rw [flushPeer_of_none hpeer]
    exact .refl b
  | some peer =>
    obtain ⟨key, hkey, hattached⟩ := peer?_eq_some.mp hpeer
    let out := key.stream.write peer.outbound host b.world
    let asked : Broker σ := { b with world := out.2 }
    have hasked : Keeps identity b asked := .of_keys rfl
    have hkey' : asked.selector.keys.find? id = some key := hkey
    have hnote : Keeps identity asked (asked.setPeer id { peer with outbound := out.1.rest }) :=
      keeps_setPeer hkey' hattached rfl
    have hwritten := hasked.trans hnote
    rcases flushPeer_cases host hkey hattached with ⟨_, h⟩ | ⟨_, selector, h, hthins⟩
    · rw [h]
      exact hwritten.trans (keeps_dropConnection _ id)
    · rw [h]
      exact hwritten.trans (.of_thins (fun _ _ _ => rfl) hthins)

theorem keeps_deliver (frame : Bytes) (b : Broker σ) (uid : WorkerId) :
    Keeps identity b (deliver host frame b uid) := by
  rcases deliver_cases host frame b uid with ⟨_, h⟩ | ⟨id, _, h⟩
  · rw [h]
    exact .refl b
  · rcases h with ⟨_, h⟩ | ⟨_, _, _, h⟩ | ⟨peer, _, _, h⟩ | ⟨peer, hpeer, _, h⟩
    · rw [h]
      exact .of_keys rfl
    · rw [h]
      exact .refl b
    · rw [h]
      exact keeps_dropConnection b id
    · rw [h]
      obtain ⟨key, hkey, hattached⟩ := peer?_eq_some.mp hpeer
      have hnote : Keeps identity b
          (b.setPeer id { peer with outbound := peer.outbound ++ frame }) :=
        keeps_setPeer hkey hattached rfl
      exact hnote.trans (keeps_flushPeer _ id)

theorem Posts.keeps {os : List (WorkerId × Bytes)} {b b' : Broker σ} (h : Posts host os b b') :
    Keeps identity b b' := by
  induction h with
  | done b => exact .refl b
  | deliver _ ih => exact (keeps_deliver _ _ _).trans ih
  | @mail _ b _ queue inbox _ ih =>
    have hmail : Keeps identity b { b with queue, inbox } := .of_keys rfl
    exact hmail.trans ih
  | @roll _ b _ _ ih =>
    have hroll : Keeps identity b { b with world := (host.roll b.world).2 } := .of_keys rfl
    exact hroll.trans ih

/-! ## Reading a connection -/

/-- A connection after its frames were taken out. -/
def drained (peer : Peer) : Peer :=
  { peer with reader := peer.reader.drain.1 }

theorem peer?_takeFrames {b : Broker σ} {id : StreamId} {peer : Peer}
    (hpeer : b.peer? id = some peer) {id' : StreamId} {peer' : Peer}
    (h : (b.takeFrames host id peer).2.peer? id' = some peer') :
    (id' ≠ id ∧ b.peer? id' = some peer') ∨
      (id' = id ∧ peer' = if peer.uid = none then peer else drained peer) := by
  have hnoted : ∀ {queue}, (setPeer { b with queue } id (drained peer)).peer? id' = some peer' →
      peer.uid ≠ none → (id' ≠ id ∧ b.peer? id' = some peer') ∨
        (id' = id ∧ peer' = if peer.uid = none then peer else drained peer) := by
    intro queue hfound huid
    by_cases hid : id' = id
    · subst hid
      have hqueued : Broker.peer? { b with queue } id' = some peer := hpeer
      rw [peer?_setPeer_self hqueued] at hfound
      exact Or.inr ⟨rfl, by rw [if_neg huid, Option.some.inj hfound]⟩
    · rw [peer?_setPeer_of_ne hid] at hfound
      exact Or.inl ⟨hid, hfound⟩
  rcases takeFrames_cases host b id peer with ⟨huid, heq⟩ | ⟨huid, heq⟩ | ⟨huid, heq⟩
  · rw [heq] at h
    by_cases hid : id' = id
    · subst hid
      rw [hpeer] at h
      exact Or.inr ⟨rfl, by rw [if_pos huid, Option.some.inj h]⟩
    · exact Or.inl ⟨hid, h⟩
  · rw [heq, peer?_dropConnection] at h
    split at h
    · cases h
    · exact hnoted h huid
  · rw [heq] at h
    exact hnoted h huid

theorem peer?_greet {b : Broker σ} {id : StreamId} {peer : Peer} (hpeer : b.peer? id = some peer)
    {id' : StreamId} {peer' : Peer} (hid : id' ≠ id)
    (h : (b.greet host id peer).2.peer? id' = some peer') : b.peer? id' = some peer' := by
  rcases greet_cases host b id peer with ⟨heq, _⟩ | ⟨heq, _⟩ | ⟨uid, length, _, _, _, heq⟩
  · rwa [heq] at h
  · rwa [heq, peer?_dropConnection, if_neg hid] at h
  · rw [heq] at h
    rcases peer?_of_promote hpeer h with ⟨hsame, _⟩ | ⟨_, hfound, _⟩
    · exact absurd hsame hid
    · exact hfound

/-- A connection with a bad handshake is dropped. -/
theorem greet_of_none {b : Broker σ} {id : StreamId} {peer : Peer}
    (h : (b.greet host id peer).1 = none) :
    (b.greet host id peer).2 = b.dropConnection host id := by
  rcases greet_cases host b id peer with ⟨heq, _⟩ | ⟨heq, _⟩ | ⟨uid, length, _, _, _, heq⟩
  · rw [heq] at h
    cases h
  · rw [heq]
  · rw [heq] at h
    cases h

/-- After a connection was read, the others are as they were, and it has been
greeted and its frames were taken out. -/
theorem peer?_readPeer {b : Broker σ} {id : StreamId} {key : Poll.Key Peer} {peer : Peer}
    (hkey : b.selector.keys.find? id = some key) (hpeer : key.attachment = some peer)
    {id' : StreamId} {peer' : Peer} (h : (b.readPeer host id).peer? id' = some peer') :
    let heard := b.hear host id key peer
    (id' ≠ id ∧ b.peer? id' = some peer') ∨
      (id' = id ∧ ∃ greeted, (heard.2.greet host id heard.1).1 = some greeted ∧
        peer' = if greeted.uid = none then greeted else drained greeted) := by
  intro heard
  have hself : heard.2.peer? id = some heard.1 := by
    let asked : Broker σ := { b with world := (key.stream.read host b.world).2 }
    have hasked : asked.peer? id = some peer := peer?_eq_some.mpr ⟨key, hkey, hpeer⟩
    exact peer?_setPeer_self hasked
  have hothers : id' ≠ id → heard.2.peer? id' = b.peer? id' := fun hid => peer?_setPeer_of_ne hid
  obtain ⟨_, hgreeted⟩ := acts_greet host hself
  have htaken : ∀ {greeted}, (heard.2.greet host id heard.1).1 = some greeted →
      ((heard.2.greet host id heard.1).2.takeFrames host id greeted).2.peer? id' = some peer' →
      (id' ≠ id ∧ b.peer? id' = some peer') ∨
        (id' = id ∧ ∃ greeted, (heard.2.greet host id heard.1).1 = some greeted ∧
          peer' = if greeted.uid = none then greeted else drained greeted) := by
    intro greeted hsome hfound
    rcases peer?_takeFrames (hgreeted greeted hsome) hfound with ⟨hid, hfound⟩ | ⟨hid, heq⟩
    · exact Or.inl ⟨hid, hothers hid ▸ peer?_greet hself hid hfound⟩
    · exact Or.inr ⟨hid, greeted, hsome, heq⟩
  rcases readPeer_cases host b id with ⟨hnone, _⟩ | ⟨key', peer₀, hkey', hpeer', hread⟩
  · cases hnone.symm.trans (peer?_eq_some.mpr ⟨key, hkey, hpeer⟩)
  · cases hkey.symm.trans hkey'
    cases hpeer.symm.trans hpeer'
    rcases hread with ⟨hnone, heq⟩ | ⟨greeted, hsome, heq | heq⟩
    · rw [heq] at h
      by_cases hid : id' = id
      · rw [greet_of_none hnone, peer?_dropConnection, if_pos hid] at h
        cases h
      · exact Or.inl ⟨hid, hothers hid ▸ peer?_greet hself hid h⟩
    · rw [heq] at h
      exact htaken hsome h
    · rw [heq, peer?_dropConnection] at h
      split at h
      · cases h
      · exact htaken hsome h

/-! ## Every connection is introduced -/

/-- What reading a connection adds to the queue is what its frames hold after it
was greeted. -/
theorem read_eq {b : Broker σ} {id : StreamId} {key : Poll.Key Peer} {peer : Peer}
    (hkey : b.selector.keys.find? id = some key) (hpeer : key.attachment = some peer) :
    let heard := b.hear host id key peer
    let greeted := heard.2.greet host id heard.1
    b.read host id =
      match greeted.1 with
      | none => []
      | some peer' => greeted.2.fresh host peer' := by
  unfold read
  rw [hkey]
  obtain ⟨_, _, _, attachment⟩ := key
  obtain rfl : attachment = some peer := hpeer
  rfl

/-- Whoever was greeted in a read is introduced by what it has delivered. -/
theorem introduced_of_greeted {b : Broker (Traced σ)} (hkeyed : b.selector.Keyed) {id : StreamId}
    {key : Poll.Key Peer} {peer greeted : Peer} (hkey : b.selector.keys.find? id = some key)
    (hpeer : key.attachment = some peer) (h : Introduced (b.heard id) peer)
    (hgreeted : ((b.hear host.traced id key peer).2.greet host.traced id
      (b.hear host.traced id key peer).1).1 = some greeted) :
    Introduced ((b.readPeer host.traced id).heard id) greeted := by
  rw [(tapes_readPeer host hkeyed hkey hpeer).2 id, if_pos rfl]
  exact h.greet hgreeted

/-- The worker and the unparsed bytes of a connection stay the same unless it is
read.  A new connection has neither. -/
theorem identity_run {issued : σ → StreamId → Prop} (hnumbers : host.Numbers issued)
    {b : Broker (Traced σ)} {p : Phase} {id : StreamId} (hp : p ≠ .read id) {peer' : Peer}
    (hpeer' : (b.run host.traced p).peer? id = some peer') :
    (∃ peer, b.peer? id = some peer ∧ identity .none peer' = identity .none peer) ∨
      (¬ issued b.world.bare id ∧ peer' = {}) := by
  have ofKeeps : Keeps identity b (b.run host.traced p) →
      ∃ peer, b.peer? id = some peer ∧ identity .none peer' = identity .none peer := by
    intro hkeeps
    obtain ⟨key', hkey', hattached'⟩ := peer?_eq_some.mp hpeer'
    obtain ⟨key, peer, hkey, hattached, hsame⟩ := hkeeps id key' peer' hkey' hattached'
    exact ⟨peer, peer?_eq_some.mpr ⟨key, hkey, hattached⟩, hsame⟩
  cases p with
  | accept =>
    obtain ⟨key, hkey, hattached⟩ := peer?_eq_some.mp hpeer'
    rcases key_accept hnumbers.traced hkey with hold | ⟨hnew, _, hempty⟩
    · exact Or.inl ⟨peer', peer?_eq_some.mpr ⟨key, hold, hattached⟩, rfl⟩
    · cases hempty.symm.trans hattached
      exact Or.inr ⟨hnew, rfl⟩
  | flush id' => exact Or.inl (ofKeeps (keeps_flushPeer b id'))
  | read id' =>
    rcases readPeer_cases host.traced b id' with ⟨_, h⟩ | ⟨key, peer, hkey, hpeer, _⟩
    · exact Or.inl (ofKeeps (.of_keys (congrArg (·.selector.keys) h)))
    · rcases peer?_readPeer hkey hpeer hpeer' with ⟨_, hfound⟩ | ⟨hid, _⟩
      · exact Or.inl ⟨peer', hfound, rfl⟩
      · exact absurd (congrArg Phase.read hid.symm) hp
  | submit | takeInbox => exact Or.inl (ofKeeps (.of_keys rfl))
  | route => exact Or.inl (ofKeeps (posts_route host.traced b).keeps)
  | sweep => exact Or.inl (ofKeeps ((keeps_dropAll _ b).trans (keeps_dropAll _ _)))
  | close => exact Or.inl (ofKeeps ((keeps_dropAll _ b).trans (keeps_closeStream _ _)))
  | select timeout => exact Or.inl (ofKeeps (keeps_polled b timeout))
  | closeStream id' => exact Or.inl (ofKeeps (keeps_selector_closeStream b id'))

theorem introduced_readPeer {b : Broker (Traced σ)} (hkeyed : b.selector.Keyed) {id : StreamId}
    (h : ∀ peer, b.peer? id = some peer → Introduced (b.heard id) peer) {peer' : Peer}
    (hpeer' : (b.readPeer host.traced id).peer? id = some peer') :
    Introduced ((b.readPeer host.traced id).heard id) peer' := by
  rcases readPeer_cases host.traced b id with ⟨_, heq⟩ | ⟨key, peer, hkey, hpeer, _⟩
  · rw [heq] at hpeer' ⊢
    exact h peer' hpeer'
  · rcases peer?_readPeer hkey hpeer hpeer' with ⟨hne, _⟩ | ⟨_, greeted, hgreeted, rfl⟩
    · exact absurd rfl hne
    · have hbefore := h peer (peer?_eq_some.mpr ⟨key, hkey, hpeer⟩)
      have hintro := introduced_of_greeted hkeyed hkey hpeer hbefore hgreeted
      split
      · exact hintro
      · rename_i huid
        exact hintro.drained huid

variable {issued : σ → StreamId → Prop} {log : List (Broker (Traced σ) × Phase)}
  {b : Broker (Traced σ)}

/-- Every connection of a broker is introduced by what it has delivered. -/
theorem Course.introduced (hnumbers : host.Numbers issued) (h : Course host issued log b) :
    ∀ id peer, b.peer? id = some peer → Introduced (b.heard id) peer := by
  induction h with
  | begin hbegins =>
    intro id peer hpeer
    have hsound := hbegins.opened.sound
    exact absurd (hsound.1.placed hpeer) (hsound.2 id)
  | @phase log b p hcourse ih =>
    intro id peer' hpeer'
    have hkeyed := (hcourse.sound hnumbers).1.keyed
    by_cases hp : p = .read id
    · subst hp
      exact introduced_readPeer hkeyed (ih id) hpeer'
    · rw [(heard_run host hkeyed p id).2 hp]
      rcases identity_run hnumbers hp hpeer' with ⟨peer, hpeer, hsame⟩ | ⟨hnew, rfl⟩
      · exact (ih id peer hpeer).congr hsame
      · rw [(hcourse.silent hnumbers hnew).1]
        exact introduced_new
  | outside world _ _ ih => exact ih

/-! ## What a worker says is its own -/

theorem sender_of_mem_envelopes {uid : WorkerId} {frames : List Bytes} {e : Envelope}
    (h : e ∈ envelopes uid frames) : e.sender = uid := by
  unfold envelopes at h
  obtain ⟨frame, _, hframe⟩ := List.mem_filterMap.mp h
  split at hframe
  · cases hframe
    rfl
  · cases hframe

theorem sender_of_mem_fresh {b : Broker σ} {peer : Peer} {q : Queued}
    (h : q ∈ b.fresh host peer) : peer.uid = some q.envelope.sender := by
  unfold fresh at h
  split at h
  · cases h
  · rename_i uid huid
    obtain ⟨e, he, rfl⟩ := List.mem_map.mp h
    rw [huid, sender_of_mem_envelopes he]

/-- What reading a connection adds to the queue comes from the worker of the
handshake that this connection began with. -/
theorem sender_of_mem_read (hnumbers : host.Numbers issued) (h : Course host issued log b)
    {id : StreamId} {q : Queued} (hq : q ∈ b.read host.traced id) :
    q.envelope.sender.isServer = false ∧ ∃ length,
      parseHandshake ((b.readPeer host.traced id).heard id) =
        .ok (some (q.envelope.sender, length)) := by
  cases hpeer? : b.peer? id with
  | none =>
    unfold read at hq
    unfold peer? at hpeer?
    split at hq
    · cases hq
    · rename_i key hkey
      rw [hkey, Option.bind_some] at hpeer?
      rw [hpeer?] at hq
      cases hq
  | some peer =>
    obtain ⟨key, hkey, hpeer⟩ := peer?_eq_some.mp hpeer?
    rw [read_eq hkey hpeer] at hq
    split at hq
    · cases hq
    · rename_i greeted hgreeted
      have hintro := h.introduced hnumbers id peer hpeer?
      have hkeyed := (h.sound hnumbers).1.keyed
      exact (introduced_of_greeted hkeyed hkey hpeer hintro hgreeted).worker
        (sender_of_mem_fresh hq)

end Broker

open Broker Scheduler in
/-- A worker speaks for itself alone.  Whatever a connection delivers, in any
state of a broker, the envelopes that reading it adds to the queue have as
their sender the worker of the connection's handshake, which is never the
scheduler.  And if the scheduler takes in such an envelope, no record but the
sender's changes. -/
theorem peers_speak_for_themselves {host : Host σ} {issued : σ → StreamId → Prop}
    {log : List (Broker (Traced σ) × Phase)} {b : Broker (Traced σ)}
    (hnumbers : host.Numbers issued) (h : Course host issued log b) (id : StreamId) :
    let after := b.readPeer host.traced id
    after.queue <:+ b.queue ++ b.read host.traced id ∧
      ∀ q ∈ b.read host.traced id,
        q.envelope.sender ≠ .server ∧
        (∃ length, parseHandshake (after.heard id) = .ok (some (q.envelope.sender, length))) ∧
        ∀ {τ : Type} (p : Premises τ) (c : Core) (s : τ), Lifecycle.Provided p.bus →
          ∀ uid ≠ q.envelope.sender,
            (c.take p q.envelope s).1.workers.find? uid = c.workers.find? uid := by
  refine ⟨(gathers_readPeer b id).queue.suffix, ?_⟩
  intro q hq
  obtain ⟨hserver, hparse⟩ := sender_of_mem_read hnumbers h hq
  refine ⟨?_, hparse, fun p c s hbus uid huid => Core.find?_take hbus c q.envelope s huid⟩
  intro hsame
  rw [hsame] at hserver
  cases hserver

open Broker Scheduler in
/-- Worker 2 writes its handshake and, at once, a frame in which worker 3
announces its exit, then the handshake of worker 3, and the frame again.  The
broker queues the two frames in the name of worker 2, without the malformed
one that the second handshake makes up.  The scheduler ignores them. -/
theorem peers_speak_for_themselves_forged :
    let forged : Envelope := ⟨⟨3⟩, .server, 0, .status { uid := ⟨3⟩, status := .exiting }⟩
    let said := Wire.handshake ⟨2⟩ ++ Wire.frame forged ++ Wire.handshake ⟨3⟩ ++ [0] ++
      Wire.frame forged
    let joined := rehearsed.run rehearsal.traced .accept
    let b := { joined with world := joined.world.swap (3, { arriving := [(⟨2⟩, said)] }) }
    let after := b.readPeer rehearsal.traced ⟨2⟩
    let queued : Queued := ⟨{ forged with sender := ⟨2⟩ }, .ofSeconds 1⟩
    let calls : Backend.ThreadCalls Nat :=
      { start := fun _ _ n => (.ok (), n), stop := fun _ n => n, ended? := fun _ _ => none }
    let config := Config.standard ⟨"/tmp", "herd"⟩
    let p : Premises (Backend.Threads × Nat) := {
      config
      host := counting.onSecond
      bus := (Backend.Threads.backend calls).attach
      discipline := standardDiscipline config
      own := 1
      probe := fun _ _ => .absent
      lockFile := fun _ => .nothing
      setLockFile := fun _ s => s
      stopRequested := fun _ => false }
    let c : Core := { workers := ⟨8, Table.empty.insert ⟨3⟩ { uid := ⟨3⟩, status := .waiting }⟩ }
    (∃ log, Course rehearsal (fun s id => id.val.toNat < s.1) log b) ∧
      b.read rehearsal.traced ⟨2⟩ = [queued, queued] ∧
      queued.envelope.sender ≠ .server ∧
      (∃ length, parseHandshake (after.heard ⟨2⟩) =
        .ok (some (queued.envelope.sender, length))) ∧
      (c.take p queued.envelope (.empty, 0)).1.workers.find? ⟨3⟩ =
        some { uid := ⟨3⟩, status := .waiting } := by
  intro forged said joined b after queued calls config p c
  have hcourse : Course rehearsal (fun s id => id.val.toNat < s.1) [(rehearsed, .accept)] b :=
    .outside _ (fun _ h => h) (.phase .accept (.begin begins_rehearsed))
  have hread : b.read rehearsal.traced ⟨2⟩ = [queued, queued] := by decide +kernel
  have hqueued : queued ∈ b.read rehearsal.traced ⟨2⟩ := by
    rw [hread]
    exact List.mem_cons_self
  obtain ⟨hserver, hparse, htake⟩ :=
    (peers_speak_for_themselves rehearsal_numbers hcourse ⟨2⟩).2 queued hqueued
  have hother := htake p c (.empty, 0) (.threads calls) ⟨3⟩ (by decide)
  exact ⟨⟨_, hcourse⟩, hread, hserver, hparse, hother.trans (by decide +kernel)⟩

end Supervisor.Bus
