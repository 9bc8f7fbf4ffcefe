import Supervisor.Proofs.Bus.Backlog
import Supervisor.Proofs.Bus.ConnectionTable

/-!
# The course of a broker

Every operation of a broker is a sequence of phases: it accepts, flushes or
reads one connection, queues an envelope, routes, sweeps.  A `Course` is any
sequence of phases, with changes of the outside world in between, and its log
tells in which state each phase began.  So a fact about all states of a broker
is proved phase by phase.

Besides, a course remembers what went over the streams.  `Host.traced` is a
host with two tapes, one of what its streams delivered and one of what they
took.  Nothing that runs on a host looks at them.

There are four groups.

* Traces.
* Phases and courses.  `Course.onReady` and `Course.send` say that operations
  are made of phases, and `Course.sound` that the places where connections are
  noted agree.
* A routing pass as a sequence of deliveries (`posts_route`).
* What phases leave alone: parts of what is known of a connection (`Keeps`)
  and the two tapes (`heard_flushPeer`, `took_readPeer` and others).
-/

namespace Supervisor

open Wire (Bytes ReadEvent)

/-! ## Traces -/

namespace Poll

variable {σ : Type}

/-- A host with a tape of what its streams deliver. -/
def Host.recorded (host : Host σ) : Host (σ × Tape) where
  poll entries timeout s :=
    let (r, world) := host.poll entries timeout s.1
    (r, world, s.2)
  incoming id s := host.incoming id s.1
  consume id n s :=
    (host.consume id n s.1, s.2 ++ [(id, ReadEvent.delivered ((host.incoming id s.1).take n))])
  write id b s :=
    let (events, world) := host.write id b s.1
    (events, world, s.2)
  accept id s :=
    let (events, world) := host.accept id s.1
    (events, world, s.2)
  close id s := (host.close id s.1, s.2)
  bind address shared s :=
    let (r, world) := host.bind address shared s.1
    (r, world, s.2)
  connect address s :=
    let (r, world) := host.connect address s.1
    (r, world, s.2)
  clock s := host.clock s.1
  present s := host.present s.1
  usage s := host.usage s.1
  sleep d s := (host.sleep d s.1, s.2)
  roll s :=
    let (r, world) := host.roll s.1
    (r, world, s.2)

/-- A world with a tape of what its streams delivered and one of what they
took. -/
abbrev Traced (σ : Type) := (σ × Tape) × Tape

/-- A host with both tapes. -/
abbrev Host.traced (host : Host σ) : Host (Traced σ) :=
  host.recorded.taped

namespace Traced

/-- The world without its tapes. -/
def bare (s : Traced σ) : σ :=
  s.1.1

/-- All bytes that a stream delivered. -/
def heard (s : Traced σ) (id : StreamId) : Bytes :=
  s.1.2.of id

/-- All bytes that a stream took. -/
def took (s : Traced σ) (id : StreamId) : Bytes :=
  s.2.of id

/-- Another world with the same tapes. -/
def swap (s : Traced σ) (world : σ) : Traced σ :=
  ((world, s.1.2), s.2)

/-- A world whose tapes are empty. -/
def fresh (world : σ) : Traced σ :=
  ((world, []), [])

/-- Nothing was delivered and nothing was taken. -/
structure SameTapes (s s' : Traced σ) : Prop where
  heard : s'.heard = s.heard
  took : s'.took = s.took

theorem SameTapes.refl (s : Traced σ) : s.SameTapes s :=
  ⟨rfl, rfl⟩

theorem SameTapes.trans {s s' s'' : Traced σ} (h : s.SameTapes s') (h' : s'.SameTapes s'') :
    s.SameTapes s'' :=
  ⟨h'.heard.trans h.heard, h'.took.trans h.took⟩

end Traced

/-- The tapes do not change what is called. -/
theorem Host.Call.bare {host : Host σ} {s s' : Traced σ} (h : host.traced.Call s s') :
    host.Call s.bare s'.bare := by
  cases h with
  | poll entries timeout => exact .poll entries timeout s.bare
  | consume id calls => exact .consume id calls s.bare
  | write id b => exact .write id b s.bare
  | accept id => exact .accept id s.bare
  | close id => exact .close id s.bare
  | roll => exact .roll s.bare

theorem Host.Numbers.traced {host : Host σ} {issued : σ → StreamId → Prop}
    (h : host.Numbers issued) : host.traced.Numbers fun s id => issued s.bare id where
  keeps hcall hid := h.keeps hcall.bare hid
  fresh hid := h.fresh hid
  noted hid := h.noted hid
  nodup s listener := h.nodup s.bare listener

/-- Reading notes what was delivered and nothing else. -/
theorem Stream.read_traced (st : Stream) (host : Host σ) (s : Traced σ) :
    (st.read host.traced s).2.took = s.took ∧
      ∀ id, (st.read host.traced s).2.heard id =
        s.heard id ++ if st.id = id then ReadEvent.delivered (st.read host.traced s).1 else [] := by
  unfold Stream.read
  split
  · refine ⟨rfl, fun id => ?_⟩
    simp [ReadEvent.delivered]
  · refine ⟨rfl, fun id => ?_⟩
    let events := host.incoming st.id s.bare
    show Tape.of (s.1.2 ++ [(st.id, ReadEvent.delivered (events.take events.length))]) id = _
    rw [List.take_length, Tape.of_append, Tape.of_singleton]
    rfl

/-- Writing delivers nothing. -/
theorem Stream.heard_write (st : Stream) (b : Bytes) (host : Host σ) (s : Traced σ) :
    (st.write b host.traced s).2.heard = s.heard := by
  unfold Stream.write
  split
  · rfl
  · split
    · rfl
    · rfl

/-! ## Scripts -/

/-- What the streams of a scripted host deliver, and how many bytes they take
together. -/
structure Script where
  arriving : List (StreamId × Bytes) := []
  room : Nat := 0
deriving DecidableEq, Repr

/-- A host whose streams play a script.  Whoever is polled is ready. -/
def Host.scripted (host : Host σ) : Host (σ × Script) where
  poll _ _ s := (.reported fun _ => { readable := true, writable := true }, s)
  incoming id s :=
    (s.2.arriving.filter (·.1 = id)).map (fun entry => .data entry.2) ++ [.wouldBlock]
  consume id _ s := (s.1, { s.2 with arriving := s.2.arriving.filter (·.1 ≠ id) })
  write _ b s :=
    if s.2.room = 0 then ([.wouldBlock], s)
    else ([.wrote (min s.2.room b.length)], s.1, { s.2 with room := s.2.room - b.length })
  accept id s :=
    let (events, world) := host.accept id s.1
    (events, world, s.2)
  close id s := (host.close id s.1, s.2)
  bind address shared s :=
    let (r, world) := host.bind address shared s.1
    (r, world, s.2)
  connect address s :=
    let (r, world) := host.connect address s.1
    (r, world, s.2)
  clock s := host.clock s.1
  present s := host.present s.1
  usage s := host.usage s.1
  sleep d s := (host.sleep d s.1, s.2)
  roll s :=
    let (r, world) := host.roll s.1
    (r, world, s.2)

theorem Host.Numbers.scripted {host : Host σ} {issued : σ → StreamId → Prop}
    (h : host.Numbers issued) : host.scripted.Numbers fun s id => issued s.1 id where
  keeps {s s' id} hcall hid := by
    cases hcall with
    | poll | consume => exact hid
    | write _ b =>
      unfold Host.scripted
      dsimp only
      split
      · exact hid
      · exact hid
    | accept listener => exact h.keeps (.accept listener s.1) hid
    | close id' => exact h.keeps (.close id' s.1) hid
    | roll => exact h.keeps (.roll s.1) hid
  fresh hid := h.fresh hid
  noted hid := h.noted hid
  nodup s listener := h.nodup s.1 listener

end Poll

namespace Bus

open Poll (Host Ops Selector Traced)

/-- One phase of what a broker does. -/
inductive Phase where
  /-- Accepts the connections that wait. -/
  | accept
  /-- Writes to a connection. -/
  | flush (id : StreamId)
  /-- Reads a connection. -/
  | read (id : StreamId)
  /-- Queues an envelope. -/
  | submit (e : Envelope)
  /-- Routes the queue. -/
  | route
  /-- Hands the inbox out. -/
  | takeInbox
  /-- Drops the connections that are gone. -/
  | sweep
  /-- Closes the bus. -/
  | close
  /-- Polls the streams. -/
  | select (timeout : Option Duration)
  /-- Closes the stream of a connection, whose key stays for now. -/
  | closeStream (id : StreamId)
deriving DecidableEq, Repr

namespace Broker

variable {σ : Type} {host : Host σ}

/-! ## Phases -/

/-- A broker after a phase. -/
def run (host : Host σ) (b : Broker σ) : Phase → Broker σ
  | .accept => (b.accept host).2
  | .flush id => b.flushPeer host id
  | .read id => b.readPeer host id
  | .submit e => b.submit host e
  | .route => b.route host
  | .takeInbox => b.takeInbox.2
  | .sweep => (b.sweep host).2
  | .close => b.close host
  | .select timeout => b.polled host timeout
  | .closeStream id => { b with selector := b.selector.closeStream id }

/-- A broker after some phases. -/
def runAll (host : Host σ) (ps : List Phase) (b : Broker σ) : Broker σ :=
  ps.foldl (run host) b

theorem runAll_append (ps ps' : List Phase) (b : Broker σ) :
    b.runAll host (ps ++ ps') = (b.runAll host ps).runAll host ps' :=
  List.foldl_append

/-- The states in which some phases begin. -/
def logAll (host : Host σ) : List Phase → Broker σ → List (Broker σ × Phase)
  | [], _ => []
  | p :: ps, b => (b, p) :: logAll host ps (b.run host p)

/-- Handling a stream that was ready is accepting, or flushing and reading. -/
theorem serve_phases (host : Host σ) (b : Broker σ) (id : StreamId) :
    ∃ ps, (b.serve host id).2 = b.runAll host ps := by
  unfold serve
  split
  · exact ⟨[.accept], rfl⟩
  · split
    · exact ⟨[], rfl⟩
    · rename_i key _
      refine ⟨(if key.ready.write then [.flush id] else []) ++
        (if key.ready.read then [.read id] else []), ?_⟩
      rw [runAll_append]
      cases key.ready.write <;> cases key.ready.read <;> rfl

theorem serveAll_phases (host : Host σ) (ids : List StreamId) (b : Broker σ) :
    ∃ ps, (serveAll host ids b).2 = b.runAll host ps := by
  induction ids generalizing b with
  | nil => exact ⟨[], rfl⟩
  | cons id ids ih =>
    obtain ⟨ps, hps⟩ := serve_phases host b id
    unfold serveAll
    generalize b.serve host id = served at hps ⊢
    obtain ⟨outcome, b'⟩ := served
    cases outcome with
    | error e => exact ⟨ps, hps⟩
    | ok _ =>
      obtain ⟨ps', hps'⟩ := ih b'
      refine ⟨ps ++ ps', ?_⟩
      rw [runAll_append, ← hps]
      exact hps'

/-- Handling all streams that were ready is a sequence of phases, which ends
with a routing pass unless it failed. -/
theorem onReady_phases (host : Host σ) (b : Broker σ) :
    ∃ ps, (b.onReady host).2 = b.runAll host ps := by
  obtain ⟨ps, hps⟩ := serveAll_phases host b.selector.ready b
  rw [onReady_eq]
  dsimp only
  split
  · refine ⟨ps ++ [.route], ?_⟩
    rw [runAll_append, ← hps]
    rfl
  · exact ⟨ps, hps⟩

theorem acts_run (host : Host σ) (b : Broker σ) (p : Phase) : Acts host b (b.run host p) := by
  cases p with
  | accept => exact .single (.accept b)
  | flush id => exact (moves_flushPeer b id).acts
  | read id => exact acts_readPeer host b id
  | submit e => exact acts_submit host b e
  | route => exact acts_route host b
  | takeInbox => exact .single (.mail b b.queue [])
  | sweep => exact acts_sweep host b
  | close => exact acts_close host b
  | select timeout =>
    have hcalls := Selector.calls_select b.selector timeout host b.world
    exact (acts_call hcalls).tail (.move (.select (Selector.thins_select _ _ _ _)))
  | closeStream id => exact .single (.move (.select (Selector.thins_closeStream _ id)))

theorem Acts.calls {b b' : Broker σ} (h : Acts host b b') : host.Calls b.world b'.world := by
  induction h with
  | refl => exact .refl
  | @tail c c' _ hact ih =>
    refine ih.trans ?_
    cases hact with
    | move hmove => exact hmove.calls
    | mail => exact .refl
    | accept =>
      unfold accept
      split
      · exact .refl
      · rename_i key _
        rw [world_enroll]
        exact key.stream.calls_accept host c.world
    | @promote id peer peer' uid =>
      exact (promote_cases host (c.setPeer id peer') id uid).2.2.2.2

theorem Sound.placed {b : Broker σ} {id : StreamId} {peer : Peer} (hb : Sound b)
    (hpeer : b.peer? id = some peer) : b.Placed id := by
  cases huid : peer.uid with
  | none => exact Or.inl (hb.strangers hpeer huid)
  | some uid => exact Or.inr ⟨uid, hb.workers hpeer huid⟩

/-! ## Courses -/

/-- All bytes that a connection delivered. -/
def heard (b : Broker (Traced σ)) (id : StreamId) : Bytes :=
  b.world.heard id

/-- A broker begins to listen, and no stream has delivered or taken anything. -/
structure Begins (host : Host σ) (b : Broker (Traced σ)) : Prop where
  opened : Opened host.traced b
  silent : ∀ id, b.heard id = [] ∧ b.took id = []

/-- What a broker goes through: phases, and changes of the world that take no
number back.  The log has the states in which the phases began. -/
inductive Course (host : Host σ) (issued : σ → StreamId → Prop) :
    List (Broker (Traced σ) × Phase) → Broker (Traced σ) → Prop where
  | begin {b : Broker (Traced σ)} : Begins host b → Course host issued [] b
  | phase {log : List (Broker (Traced σ) × Phase)} {b : Broker (Traced σ)} (p : Phase) :
      Course host issued log b → Course host issued (log ++ [(b, p)]) (b.run host.traced p)
  | outside {log : List (Broker (Traced σ) × Phase)} {b : Broker (Traced σ)} (world : σ) :
      (∀ id, issued b.world.bare id → issued world id) → Course host issued log b →
      Course host issued log { b with world := b.world.swap world }

namespace Course

variable {issued : σ → StreamId → Prop} {log : List (Broker (Traced σ) × Phase)}
  {b : Broker (Traced σ)}

theorem runAll (h : Course host issued log b) (ps : List Phase) :
    Course host issued (log ++ logAll host.traced ps b) (b.runAll host.traced ps) := by
  induction ps generalizing log b with
  | nil =>
    rw [logAll, List.append_nil]
    exact h
  | cons p ps ih =>
    have hrest := ih (h.phase p)
    rw [List.append_assoc] at hrest
    exact hrest

theorem onReady (h : Course host issued log b) :
    ∃ log', Course host issued (log ++ log') (b.onReady host.traced).2 := by
  obtain ⟨ps, hps⟩ := onReady_phases host.traced b
  rw [hps]
  exact ⟨_, h.runAll ps⟩

theorem send (h : Course host issued log b) (audience : Audience) (number : UInt64)
    (message : Message) :
    ∃ log', Course host issued (log ++ log') (b.send host.traced audience number message) :=
  ⟨_, h.runAll [.submit ⟨.server, audience, number, message⟩, .route]⟩

/-- In the course of a broker the places where connections are noted agree. -/
theorem sound (hnumbers : host.Numbers issued) (h : Course host issued log b) :
    Sound b ∧ Known (fun s id => issued s.bare id) b := by
  induction h with
  | begin hbegins =>
    obtain ⟨hsound, hnobody⟩ := hbegins.opened.sound
    exact ⟨hsound, fun id hid => absurd hid (hnobody id)⟩
  | phase p _ ih => exact (acts_run host.traced _ p).sound hnumbers.traced ih.1 ih.2
  | @outside _ b world hissued _ ih =>
    have hthins : Thins b { b with world := b.world.swap world } := .of_eq rfl rfl rfl
    exact ⟨hthins.sound ih.1, fun id hid => hissued id (ih.2 id (hthins.placed hid))⟩

/-- A connection that is there has been given out. -/
theorem issued_of_peer (hnumbers : host.Numbers issued) (h : Course host issued log b)
    {id : StreamId} {peer : Peer} (hpeer : b.peer? id = some peer) : issued b.world.bare id :=
  (h.sound hnumbers).2 id ((h.sound hnumbers).1.placed hpeer)

/-- What was given out stays given out. -/
theorem issued_run (hnumbers : host.Numbers issued) (b : Broker (Traced σ)) (p : Phase)
    {id : StreamId} (hid : issued b.world.bare id) :
    issued (b.run host.traced p).world.bare id :=
  hnumbers.traced.calls (acts_run host.traced b p).calls hid

end Course

/-! ## A routing pass, delivery by delivery -/

/-- Between `b` and `b'` these offers were made, one after another.  In between
the queue and the inbox change, and dice are rolled. -/
inductive Posts (host : Host σ) : List (WorkerId × Bytes) → Broker σ → Broker σ → Prop where
  | done (b : Broker σ) : Posts host [] b b
  | deliver {os : List (WorkerId × Bytes)} {b b' : Broker σ} {uid : WorkerId} {frame : Bytes} :
      Posts host os (deliver host frame b uid) b' → Posts host ((uid, frame) :: os) b b'
  | mail {os : List (WorkerId × Bytes)} {b b' : Broker σ} (queue : List Queued)
      (inbox : List Envelope) :
      Posts host os { b with queue, inbox } b' → Posts host os b b'
  | roll {os : List (WorkerId × Bytes)} {b b' : Broker σ} :
      Posts host os { b with world := (host.roll b.world).2 } b' → Posts host os b b'

theorem Posts.trans {os os' : List (WorkerId × Bytes)} {b b' b'' : Broker σ}
    (h : Posts host os b b') (h' : Posts host os' b' b'') : Posts host (os ++ os') b b'' := by
  induction h with
  | done => exact h'
  | deliver _ ih => exact .deliver (ih h')
  | mail queue inbox _ ih => exact .mail queue inbox (ih h')
  | roll _ ih => exact .roll (ih h')

theorem posts_mail (b : Broker σ) (queue : List Queued) (inbox : List Envelope) :
    Posts host [] b { b with queue, inbox } :=
  .mail queue inbox (.done _)

theorem posts_deliverAll (host : Host σ) (frame : Bytes) (uids : List WorkerId) (b : Broker σ) :
    Posts host (uids.map fun uid => (uid, frame)) b (uids.foldl (deliver host frame) b) := by
  induction uids generalizing b with
  | nil => exact .done b
  | cons uid uids ih => exact .deliver (ih _)

theorem posts_meet (host : Host σ) (q : Queued) (b : Broker σ) (fate : Fate) :
    Posts host (offers [(q, fate)]) b (meet host q b fate) := by
  cases fate with
  | offered uids =>
    rw [offers, offers, List.append_nil]
    exact posts_deliverAll host _ uids b
  | inbox => exact posts_mail b b.queue _
  | kept => exact posts_mail b _ b.inbox
  | expired | unknown => exact .done b

theorem posts_foldl (host : Host σ) (connected : List WorkerId) (now : Duration)
    (qs : List Queued) (b : Broker σ) :
    Posts host (offers (fates host connected now qs b)) b
      (qs.foldl (routeOne host connected now) b) := by
  induction qs generalizing b with
  | nil => exact .done b
  | cons q qs ih =>
    rw [List.foldl_cons, fates, offers_cons]
    refine Posts.trans ?_ (ih _)
    rw [routeOne_eq]
    exact .roll (posts_meet host q _ _)

/-- A routing pass makes its offers in the order of the queue. -/
theorem posts_route (host : Host σ) (b : Broker σ) :
    Posts host (offers (b.passFates host)) b (b.route host) := by
  by_cases hqueue : b.queue = []
  · rw [route_of_queue_nil hqueue, passFates, hqueue]
    exact .done b
  · rw [route_of_queue_ne_nil hqueue]
    have hall := posts_foldl host b.connected (host.clock b.world) b.queue { b with queue := [] }
    have hbound : ∀ routed : Broker σ, Posts host [] routed routed.enforceBound :=
      fun routed => posts_mail routed _ routed.inbox
    have hrouted := hall.trans (hbound _)
    rw [List.append_nil] at hrouted
    exact .mail [] b.inbox hrouted

/-! ## What phases leave on the tapes -/

theorem sameTapes_closeStream (b : Broker (Traced σ)) (id : StreamId) :
    b.world.SameTapes (b.closeStream host.traced id).world := by
  unfold closeStream Selector.discard
  dsimp only
  split
  · exact .refl _
  · dsimp only
    split
    · exact .refl _
    · exact ⟨rfl, rfl⟩

theorem sameTapes_dropConnection (b : Broker (Traced σ)) (id : StreamId) :
    b.world.SameTapes (b.dropConnection host.traced id).world :=
  sameTapes_closeStream { b with
    pending := b.pending.erase id, peers := b.peers.filter fun _ st => st ≠ id } id

theorem sameTapes_dropAll (ids : List StreamId) (b : Broker (Traced σ)) :
    b.world.SameTapes (ids.foldl (dropConnection host.traced) b).world := by
  induction ids generalizing b with
  | nil => exact .refl _
  | cons id ids ih => exact (sameTapes_dropConnection b id).trans (ih _)

theorem sameTapes_promote (b : Broker (Traced σ)) (id : StreamId) (uid : WorkerId) :
    b.world.SameTapes (b.promote host.traced id uid).world := by
  unfold promote
  dsimp only
  split
  · exact .refl _
  · split
    · exact .refl _
    · exact sameTapes_closeStream { b with
        pending := b.pending.erase id, peers := b.peers.insert uid id } _

theorem sameTapes_greet (host : Host σ) (b : Broker (Traced σ)) (id : StreamId) (peer : Peer) :
    b.world.SameTapes (b.greet host.traced id peer).2.world := by
  rcases greet_cases host.traced b id peer with ⟨h, _⟩ | ⟨h, _⟩ | ⟨uid, length, _, _, _, h⟩
  · rw [h]
    exact .refl _
  · rw [h]
    exact sameTapes_dropConnection b id
  · rw [h]
    exact sameTapes_promote (b.setPeer id _) id uid

theorem sameTapes_takeFrames (host : Host σ) (b : Broker (Traced σ)) (id : StreamId) (peer : Peer) :
    b.world.SameTapes (b.takeFrames host.traced id peer).2.world := by
  rcases takeFrames_cases host.traced b id peer with ⟨_, h⟩ | ⟨_, h⟩ | ⟨_, h⟩
  · rw [h]
    exact .refl _
  · rw [h]
    exact sameTapes_dropConnection (setPeer { b with queue := _ } id _) id
  · rw [h]
    exact .refl _

/-- Whoever is accepted, nothing is read or written. -/
theorem sameTapes_accept (b : Broker (Traced σ)) :
    b.world.SameTapes (b.accept host.traced).2.world := by
  unfold accept
  split
  · exact .refl _
  · rename_i key _
    rw [world_enroll]
    unfold Poll.Stream.accept
    split
    · exact .refl _
    · exact ⟨rfl, rfl⟩

theorem sameTapes_polled (b : Broker (Traced σ)) (timeout : Option Duration) :
    b.world.SameTapes (b.polled host.traced timeout).world := by
  unfold polled Selector.select
  dsimp only
  split
  · exact .refl _
  · have hpoll : b.world.SameTapes
        (host.traced.poll b.selector.pruneClosed.pollEntries timeout b.world).2 := ⟨rfl, rfl⟩
    split
    · rename_i hresult
      rwa [hresult] at hpoll
    · rename_i hresult
      rwa [hresult] at hpoll
    · rename_i hresult
      rwa [hresult] at hpoll

theorem heard_flushPeer (b : Broker (Traced σ)) (id : StreamId) :
    (b.flushPeer host.traced id).heard = b.heard := by
  cases hpeer : b.peer? id with
  | none => rw [flushPeer_of_none hpeer]
  | some peer =>
    obtain ⟨key, hkey, hattached⟩ := peer?_eq_some.mp hpeer
    have hwrite := key.stream.heard_write peer.outbound host b.world
    rcases flushPeer_cases host.traced hkey hattached with ⟨_, h⟩ | ⟨_, selector, h, _⟩
    · rw [h]
      exact (sameTapes_dropConnection (setPeer { b with world := _ } id _) id).heard.trans hwrite
    · rw [h]
      exact hwrite

theorem heard_deliver (frame : Bytes) (b : Broker (Traced σ)) (uid : WorkerId) :
    (deliver host.traced frame b uid).heard = b.heard := by
  rcases deliver_cases host.traced frame b uid with ⟨_, h⟩ | ⟨id, _, h⟩
  · rw [h]
  · rcases h with ⟨_, h⟩ | ⟨_, _, _, h⟩ | ⟨peer, _, _, h⟩ | ⟨peer, _, _, h⟩
    · rw [h]
      rfl
    · rw [h]
    · rw [h]
      exact (sameTapes_dropConnection b id).heard
    · rw [h]
      exact heard_flushPeer (b.setPeer id _) id

/-- Routing reads nothing. -/
theorem Posts.heard {os : List (WorkerId × Bytes)} {b b' : Broker (Traced σ)}
    (h : Posts host.traced os b b') : b'.heard = b.heard := by
  induction h with
  | done => rfl
  | deliver _ ih => exact ih.trans (heard_deliver _ _ _)
  | mail queue inbox _ ih => exact ih
  | roll _ ih => exact ih

theorem heard_route (b : Broker (Traced σ)) : (b.route host.traced).heard = b.heard :=
  (posts_route host.traced b).heard

/-- After a connection was heard, the rest of reading it is about its bytes. -/
theorem sameTapes_readPeer (host : Host σ) {b : Broker (Traced σ)} {id : StreamId}
    {key : Poll.Key Peer} {peer : Peer} (hkey : b.selector.keys.find? id = some key)
    (hpeer : key.attachment = some peer) :
    (b.hear host.traced id key peer).2.world.SameTapes (b.readPeer host.traced id).world := by
  rcases readPeer_cases host.traced b id with ⟨hnone, _⟩ | ⟨key', peer', hkey', hpeer', h⟩
  · rw [peer?_eq_some.mpr ⟨key, hkey, hpeer⟩] at hnone
    cases hnone
  · cases hkey.symm.trans hkey'
    cases hpeer.symm.trans hpeer'
    let heard := b.hear host.traced id key peer
    have hgreeted := sameTapes_greet host heard.2 id heard.1
    rcases h with ⟨_, h⟩ | ⟨peer', _, h⟩
    · rw [h]
      exact hgreeted
    · have htaken := hgreeted.trans (sameTapes_takeFrames host _ id peer')
      rcases h with h | h
      · rw [h]
        exact htaken
      · rw [h]
        exact htaken.trans (sameTapes_dropConnection _ id)

/-- Reading a connection takes note of what it delivers. -/
theorem tapes_readPeer (host : Host σ) {b : Broker (Traced σ)} (hkeyed : b.selector.Keyed)
    {id : StreamId} {key : Poll.Key Peer} {peer : Peer} (hkey : b.selector.keys.find? id = some key)
    (hpeer : key.attachment = some peer) :
    (b.readPeer host.traced id).took = b.took ∧
      ∀ id', (b.readPeer host.traced id).heard id' = b.heard id' ++
        if id = id' then ReadEvent.delivered (key.stream.read host.traced b.world).1 else [] := by
  have hsame := sameTapes_readPeer host hkey hpeer
  obtain ⟨htook, hheard⟩ := key.stream.read_traced host b.world
  rw [hkeyed id key hkey] at hheard
  refine ⟨hsame.took.trans htook, fun id' => ?_⟩
  exact (congrFun hsame.heard id').trans (hheard id')

/-- What a connection delivered stays, and only reading it adds to it. -/
theorem heard_run (host : Host σ) {b : Broker (Traced σ)} (hkeyed : b.selector.Keyed) (p : Phase)
    (id : StreamId) :
    b.heard id <+: (b.run host.traced p).heard id ∧
      (p ≠ .read id → (b.run host.traced p).heard id = b.heard id) := by
  have ofHeard : (b.run host.traced p).heard = b.heard →
      b.heard id <+: (b.run host.traced p).heard id ∧
        (p ≠ .read id → (b.run host.traced p).heard id = b.heard id) :=
    fun h => ⟨congrFun h id ▸ List.prefix_rfl, fun _ => congrFun h id⟩
  cases p with
  | accept => exact ofHeard (sameTapes_accept b).heard
  | flush id' => exact ofHeard (heard_flushPeer b id')
  | read id' =>
    rcases readPeer_cases host.traced b id' with ⟨_, h⟩ | ⟨key, peer, hkey, hpeer, _⟩
    · exact ofHeard (congrArg heard h)
    · have hheard := (tapes_readPeer host hkeyed hkey hpeer).2 id
      refine ⟨hheard ▸ List.prefix_append _ _, fun hne => ?_⟩
      have hid : id' ≠ id := fun h => hne (congrArg Phase.read h)
      rw [if_neg hid, List.append_nil] at hheard
      exact hheard
  | submit | takeInbox | closeStream => exact ofHeard rfl
  | route => exact ofHeard (heard_route b)
  | sweep => exact ofHeard ((sameTapes_dropAll _ b).trans (sameTapes_dropAll _ _)).heard
  | close => exact ofHeard ((sameTapes_dropAll _ b).trans (sameTapes_closeStream _ _)).heard
  | select timeout => exact ofHeard (sameTapes_polled b timeout).heard

/-- Only connections deliver and take. -/
theorem tapes_run_of_none (host : Host σ) {b : Broker (Traced σ)} (hkeyed : b.selector.Keyed)
    (p : Phase) {id : StreamId} (hnone : b.peer? id = none) :
    (b.run host.traced p).heard id = b.heard id ∧ (b.run host.traced p).took id = b.took id := by
  have ofSame : b.world.SameTapes (b.run host.traced p).world →
      (b.run host.traced p).heard id = b.heard id ∧ (b.run host.traced p).took id = b.took id :=
    fun h => ⟨congrFun h.heard id, congrFun h.took id⟩
  cases p with
  | accept => exact ofSame (sameTapes_accept b)
  | flush id' =>
    exact ⟨congrFun (heard_flushPeer b id') id, ((carries_flushPeer hkeyed id' id).absent hnone).2⟩
  | read id' =>
    cases hpeer : b.peer? id' with
    | none =>
      rcases readPeer_cases host.traced b id' with ⟨_, h⟩ | ⟨key, peer, hkey, hattached, _⟩
      · exact ⟨congrArg (heard · id) h, congrArg (took · id) h⟩
      · cases hpeer.symm.trans (peer?_eq_some.mpr ⟨key, hkey, hattached⟩)
    | some peer =>
      obtain ⟨key, hkey, hattached⟩ := peer?_eq_some.mp hpeer
      obtain ⟨htook, hheard⟩ := tapes_readPeer host hkeyed hkey hattached
      have hne : id' ≠ id := by
        rintro rfl
        cases hpeer.symm.trans hnone
      refine ⟨(hheard id).trans ?_, congrFun htook id⟩
      rw [if_neg hne, List.append_nil]
  | submit | takeInbox | closeStream => exact ⟨rfl, rfl⟩
  | route => exact ⟨congrFun (heard_route b) id, ((carries_route hkeyed id).absent hnone).2⟩
  | sweep => exact ofSame ((sameTapes_dropAll _ b).trans (sameTapes_dropAll _ _))
  | close => exact ofSame ((sameTapes_dropAll _ b).trans (sameTapes_closeStream _ _))
  | select timeout => exact ofSame (sameTapes_polled b timeout)

/-- A stream that has not been given out has delivered and taken nothing. -/
theorem Course.silent {issued : σ → StreamId → Prop} {log : List (Broker (Traced σ) × Phase)}
    {b : Broker (Traced σ)} (hnumbers : host.Numbers issued) (h : Course host issued log b)
    {id : StreamId} (hid : ¬ issued b.world.bare id) : b.heard id = [] ∧ b.took id = [] := by
  induction h with
  | begin hbegins => exact hbegins.silent id
  | @phase log b p hcourse ih =>
    have hbefore : ¬ issued b.world.bare id := fun h => hid (Course.issued_run hnumbers b p h)
    have hnone : b.peer? id = none := by
      rw [Option.eq_none_iff_forall_ne_some]
      exact fun peer hpeer => hbefore (hcourse.issued_of_peer hnumbers hpeer)
    have hkeyed := (hcourse.sound hnumbers).1.keyed
    obtain ⟨hheard, htook⟩ := tapes_run_of_none host hkeyed p hnone
    rw [hheard, htook]
    exact ih hbefore
  | outside world hissued _ ih => exact ih fun h => hid (hissued id h)

/-! ## What phases leave known -/

/-- As far as a view of the interest and of what is known goes, every
connection of `b'` is one of `b`. -/
def Keeps {β : Type} (view : Ops → Peer → β) (b b' : Broker σ) : Prop :=
  ∀ id key' peer', b'.selector.keys.find? id = some key' → key'.attachment = some peer' →
    ∃ key peer, b.selector.keys.find? id = some key ∧ key.attachment = some peer ∧
      view key'.interest peer' = view key.interest peer

section Keeps

variable {β : Type} {view : Ops → Peer → β} {b b' b'' : Broker σ}

theorem Keeps.of_keys (h : b'.selector.keys = b.selector.keys) : Keeps view b b' := by
  intro id key peer hkey hpeer
  rw [h] at hkey
  exact ⟨key, peer, hkey, hpeer, rfl⟩

theorem Keeps.refl (b : Broker σ) : Keeps view b b :=
  .of_keys rfl

theorem Keeps.trans (h : Keeps view b b') (h' : Keeps view b' b'') : Keeps view b b'' := by
  intro id key'' peer'' hkey'' hpeer''
  obtain ⟨key', peer', hkey', hpeer', hview'⟩ := h' id key'' peer'' hkey'' hpeer''
  obtain ⟨key, peer, hkey, hpeer, hview⟩ := h id key' peer' hkey' hpeer'
  exact ⟨key, peer, hkey, hpeer, hview'.trans hview⟩

/-- A view that does not care for the interest. -/
theorem Keeps.of_thins (hview : ∀ i i' peer, view i' peer = view i peer)
    (h : b.selector.Thins b'.selector) : Keeps view b b' := by
  intro id key' peer' hkey' hpeer'
  obtain ⟨key, hkey, _, hattached⟩ := h id key' hkey'
  exact ⟨key, peer', hkey, hattached.trans hpeer', hview _ _ _⟩

theorem keeps_setPeer {id : StreamId} {key : Poll.Key Peer} {peer peer' : Peer}
    (hkey : b.selector.keys.find? id = some key) (hpeer : key.attachment = some peer)
    (hview : view key.interest peer' = view key.interest peer) :
    Keeps view b (b.setPeer id peer') := by
  intro id' key' p hkey' hp
  have hfind : (b.setPeer id peer').selector.keys.find? id' = _ := Table.find?_modify _ id id' _
  rw [hfind] at hkey'
  split at hkey'
  · rename_i hid
    subst hid
    obtain ⟨_, hkey'', rfl⟩ := Option.map_eq_some_iff.mp hkey'
    cases hkey.symm.trans hkey''
    cases hp
    exact ⟨key, peer, hkey, hpeer, hview⟩
  · exact ⟨key', p, hkey', hp, rfl⟩

theorem keeps_closeStream (b : Broker σ) (id : StreamId) :
    Keeps view b (b.closeStream host id) := by
  intro id' key' peer' hkey' hpeer'
  rw [selector_closeStream] at hkey'
  have hfind : (b.selector.remove id).keys.find? id' = _ := Table.find?_erase _ id id'
  rw [hfind] at hkey'
  split at hkey'
  · cases hkey'
  · exact ⟨key', peer', hkey', hpeer', rfl⟩

theorem keeps_dropConnection (b : Broker σ) (id : StreamId) :
    Keeps view b (b.dropConnection host id) := by
  have hkeys : Keeps view b { b with
      pending := b.pending.erase id, peers := b.peers.filter fun _ st => st ≠ id } := .of_keys rfl
  exact hkeys.trans (keeps_closeStream _ id)

theorem keeps_dropAll (ids : List StreamId) (b : Broker σ) :
    Keeps view b (ids.foldl (dropConnection host) b) := by
  induction ids generalizing b with
  | nil => exact .refl b
  | cons id ids ih => exact (keeps_dropConnection b id).trans (ih _)

theorem keeps_promote (b : Broker σ) (id : StreamId) (uid : WorkerId) :
    Keeps view b (b.promote host id uid) := by
  have hkeys : Keeps view b { b with
      pending := b.pending.erase id, peers := b.peers.insert uid id } := .of_keys rfl
  unfold promote
  dsimp only
  split
  · exact hkeys
  · split
    · exact hkeys
    · exact hkeys.trans (keeps_closeStream _ _)

/-- A poll changes what the streams are ready for and drops closed ones. -/
theorem keeps_polled (b : Broker σ) (timeout : Option Duration) :
    Keeps view b (b.polled host timeout) := by
  intro id key' peer' hkey' hpeer'
  have hpruned : ∀ key, b.selector.pruneClosed.keys.find? id = some key →
      b.selector.keys.find? id = some key := by
    intro key hkey
    have hfind : b.selector.pruneClosed.keys.find? id = _ := Table.find?_filter _ _ id
    rw [hfind, Option.filter_eq_some_iff] at hkey
    exact hkey.1
  unfold polled Selector.select at hkey'
  dsimp only at hkey'
  split at hkey'
  · exact ⟨key', peer', hpruned key' hkey', hpeer', rfl⟩
  · split at hkey'
    · exact ⟨key', peer', hpruned key' hkey', hpeer', rfl⟩
    · exact ⟨key', peer', hpruned key' hkey', hpeer', rfl⟩
    · simp only [Selector.applyReadiness, Table.find?_map] at hkey'
      obtain ⟨key, hkey, rfl⟩ := Option.map_eq_some_iff.mp hkey'
      exact ⟨key, peer', hpruned key hkey, hpeer', rfl⟩

theorem keeps_selector_closeStream (b : Broker σ) (id : StreamId) :
    Keeps view b { b with selector := b.selector.closeStream id } := by
  intro id' key' peer' hkey' hpeer'
  have hfind : (b.selector.closeStream id).keys.find? id' = _ := Table.find?_modify _ id id' _
  rw [hfind] at hkey'
  split at hkey'
  · obtain ⟨key, hkey, rfl⟩ := Option.map_eq_some_iff.mp hkey'
    exact ⟨key, peer', hkey, hpeer', rfl⟩
  · exact ⟨key', peer', hkey', hpeer', rfl⟩

end Keeps

theorem find?_register {sel sel' : Selector Peer} {st : Poll.Stream} {ops : Ops}
    {a : Option Peer} (h : sel.register st ops a = .ok sel') (id : StreamId) :
    sel'.keys.find? id =
      if id = st.id then some { stream := st, interest := ops, attachment := a }
      else sel.keys.find? id := by
  unfold Selector.register at h
  split at h
  · cases h
  · cases h
    exact Table.find?_insert _ _ _ _

theorem key_enroll {events : List Poll.AcceptEvent} {b : Broker σ} {id : StreamId}
    {key : Poll.Key Peer} (h : (enroll events b).2.selector.keys.find? id = some key) :
    b.selector.keys.find? id = some key ∨
      (id ∈ Poll.accepted events ∧ key.interest = .reading ∧ key.attachment = some {}) := by
  induction events generalizing b with
  | nil => exact Or.inl h
  | cons event events ih =>
    cases event with
    | failed failure => exact Or.inl h
    | connection id' =>
      have hcons : Poll.accepted (.connection id' :: events) = id' :: Poll.accepted events := rfl
      rw [hcons]
      unfold enroll at h
      split at h
      · exact Or.inl h
      · rename_i selector hregister
        rcases ih h with hkey | ⟨hid, hnew⟩
        · have hfind : selector.keys.find? id = _ := find?_register hregister id
          rw [hfind] at hkey
          split at hkey
          · rename_i hid
            cases hkey
            exact Or.inr ⟨hid ▸ List.mem_cons_self, rfl, rfl⟩
          · exact Or.inl hkey
        · exact Or.inr ⟨List.mem_cons_of_mem id' hid, hnew⟩

/-- After accepting, a key is an old one or that of a new connection. -/
theorem key_accept {issued : σ → StreamId → Prop} (hnumbers : host.Numbers issued) {b : Broker σ}
    {id : StreamId} {key : Poll.Key Peer}
    (h : (b.accept host).2.selector.keys.find? id = some key) :
    b.selector.keys.find? id = some key ∨
      (¬ issued b.world id ∧ key.interest = .reading ∧ key.attachment = some {}) := by
  unfold accept at h
  split at h
  · exact Or.inl h
  · rename_i listening _
    rcases key_enroll h with hkey | ⟨hid, hnew⟩
    · exact Or.inl hkey
    · have hid : id ∈ Poll.accepted (listening.stream.accept host b.world).1 := hid
      refine Or.inr ⟨?_, hnew⟩
      rcases listening.stream.accept_cases host b.world with haccept | ⟨hnone, _⟩
      · rw [haccept] at hid
        exact hnumbers.fresh hid
      · rw [hnone] at hid
        cases hid

/-! ## A rehearsal -/

/-- A host that counts its streams and plays a script. -/
def rehearsal : Host (Nat × Poll.Script) :=
  counting.scripted

theorem rehearsal_numbers : rehearsal.Numbers fun s id => id.val.toNat < s.1 :=
  counting_numbers.scripted

/-- A broker that begins to listen at the first stream of a rehearsal. -/
def rehearsed : Broker (Traced (Nat × Poll.Script)) where
  address := .v4 ⟨127, 0, 0, 1⟩ 4000
  listener := ⟨1⟩
  requeue := .standard
  outboundLimit := standardOutboundLimit
  selector := ⟨Table.empty.insert ⟨1⟩
    { stream := { id := ⟨1⟩, kind := .listener }, interest := .accepting }, []⟩
  world := .fresh (2, {})

theorem begins_rehearsed : Begins rehearsal rehearsed where
  opened := ⟨_, _, .fresh (1, {}), _, _, _, _, rfl, rfl⟩
  silent _ := ⟨rfl, rfl⟩

/-- A broker of a rehearsal whose streams get another script. -/
def staged (b : Broker (Traced (Nat × Poll.Script))) (script : Poll.Script) :
    Broker (Traced (Nat × Poll.Script)) :=
  { b with world := b.world.swap (b.world.bare.1, script) }

theorem Course.staged {log : List (Broker (Traced (Nat × Poll.Script)) × Phase)}
    {b : Broker (Traced (Nat × Poll.Script))}
    (h : Course rehearsal (fun s id => id.val.toNat < s.1) log b) (script : Poll.Script) :
    Course rehearsal (fun s id => id.val.toNat < s.1) log (b.staged script) :=
  .outside _ (fun _ hid => hid) h

end Broker

end Bus

end Supervisor
