import Supervisor.Proofs.Bus.ConnectionTable
import Supervisor.Proofs.Bus.Outbound
import Supervisor.Worker.Component

/-!
# Minutes of a component and of its streams

What a component and its clients do with each other shows in two places: in the
callbacks of the component, and in what happens on the streams of the clients.
This module takes the minutes of both, and says what there is to say about a
component that is called once, or with all that one client has sent.

* Streams.  `Host.minuted` is a host that notes which connections it accepted,
  which bytes its streams took, and which streams ended or failed.
* Callbacks.  `Component.noted` is a component that writes all its callbacks
  down, and `Component.Proper` is what a callback may do to a connection.
* Talks.  `Talks` is what remains of a sequence of callbacks about one
  connection.  `talks_hear` is the main lemma: a client is heard until nothing
  is left, the component fails, or the stream ends or fails.
-/

namespace Supervisor

open Wire (Bytes ReadEvent)

/-! ## Streams -/

namespace Poll

/-- Something that happens on the stream of a connection. -/
inductive Happening where
  | took (b : Bytes)
  | ended
  | failed
deriving DecidableEq

/-- All bytes that a stream took. -/
def tookOf (happenings : List Happening) : Bytes :=
  happenings.flatMap fun
    | .took b => b
    | _ => []

theorem tookOf_append (hs hs' : List Happening) : tookOf (hs ++ hs') = tookOf hs ++ tookOf hs' :=
  List.flatMap_append

/-- A stream on which nothing has ended or failed so far. -/
def Healthy (happenings : List Happening) : Prop :=
  ∀ h ∈ happenings, h ≠ .ended ∧ h ≠ .failed

/-- A stream that has ended or failed at last, and not before. -/
inductive Over : List Happening → Prop where
  | intro {happenings : List Happening} {last : Happening} :
      Healthy happenings → last = .ended ∨ last = .failed → Over (happenings ++ [last])

theorem healthy_nil : Healthy [] :=
  fun _ hh => nomatch hh

theorem healthy_took (b : Bytes) : Healthy [.took b] := by
  intro h hh
  cases List.mem_singleton.mp hh
  exact ⟨nofun, nofun⟩

theorem Healthy.append {hs hs' : List Happening} (h : Healthy hs) (h' : Healthy hs') :
    Healthy (hs ++ hs') :=
  List.forall_mem_append.mpr ⟨h, h'⟩

theorem Healthy.over {hs hs' : List Happening} (h : Healthy hs) (h' : Over hs') :
    Over (hs ++ hs') := by
  cases h' with
  | intro hbefore hlast =>
    rw [← List.append_assoc]
    exact .intro (h.append hbefore) hlast

theorem Over.mem {hs : List Happening} (h : Over hs) : .ended ∈ hs ∨ .failed ∈ hs := by
  cases h with
  | intro _ hlast =>
    rcases hlast with rfl | rfl
    · exact Or.inl List.mem_concat_self
    · exact Or.inr List.mem_concat_self

/-- Which connections were accepted and what happened on streams. -/
structure Minutes where
  accepted : List StreamId := []
  traffic : List (StreamId × Happening) := []
deriving DecidableEq

namespace Minutes

/-- What happened on a stream. -/
def of (m : Minutes) (id : StreamId) : List Happening :=
  (m.traffic.filter fun entry => entry.1 = id).map (·.2)

/-- Something happened on a stream. -/
def note (m : Minutes) (id : StreamId) (happenings : List Happening) : Minutes :=
  { m with traffic := m.traffic ++ happenings.map fun h => (id, h) }

theorem of_note (m : Minutes) (id id' : StreamId) (hs : List Happening) :
    (m.note id hs).of id' = m.of id' ++ if id = id' then hs else [] := by
  unfold note of
  rw [List.filter_append, List.map_append, List.filter_map, List.map_map]
  by_cases hid : id = id'
  · simp [hid, Function.comp_def]
  · simp [hid, Function.comp_def]

theorem note_nil (m : Minutes) (id : StreamId) : m.note id [] = m := by
  unfold note
  rw [List.map_nil, List.append_nil]

end Minutes

/-- What a read call tells about a stream, besides what it delivers. -/
def happening? : ReadEvent → Option Happening
  | .data [] => some .ended
  | .failed _ => some .failed
  | _ => none

/-- What happens on a stream that is offered a buffer. -/
def Flushed.happenings (flushed : Flushed) (b : Bytes) : List Happening :=
  [.took (taken b flushed.rest)] ++ if flushed.failure.isSome then [.failed] else []

/-- The connections that are accepted before accepting fails. -/
def arrivals : List AcceptEvent → List StreamId
  | .connection id :: events => id :: arrivals events
  | _ => []

theorem arrivals_sublist (events : List AcceptEvent) :
    (arrivals events).Sublist (accepted events) := by
  fun_induction arrivals events with
  | case1 id events ih => exact ih.cons_cons id
  | case2 => exact List.nil_sublist _

variable {σ : Type}

/-- A host with minutes. -/
def Host.minuted (host : Host σ) : Host (σ × Minutes) where
  poll entries timeout s :=
    let (r, world) := host.poll entries timeout s.1
    (r, world, s.2)
  incoming id s := host.incoming id s.1
  consume id n s :=
    (host.consume id n s.1, s.2.note id (((host.incoming id s.1).take n).filterMap happening?))
  write id b s :=
    let (events, world) := host.write id b s.1
    (events, world, s.2.note id ((flush b events).happenings b))
  accept id s :=
    let (events, world) := host.accept id s.1
    (events, world, { s.2 with accepted := s.2.accepted ++ arrivals events })
  close id s := (host.close id s.1, s.2)
  bind address shared s :=
    let (r, world) := host.bind address shared s.1
    (r, world, s.2)
  connect address s :=
    let (r, world) := host.connect address s.1
    (r, world, s.2)
  clock s := host.clock s.1
  present s := host.present s.1
  usage s := host.usage s.1
  sleep d s := (host.sleep d s.1, s.2)
  roll s :=
    let (r, world) := host.roll s.1
    (r, world, s.2)

/-- An open stream is offered a buffer.  What it takes of it is noted, and it
stays healthy unless writing fails. -/
theorem write_minuted (id : StreamId) (b : Bytes) (host : Host σ) (s : σ × Minutes) :
    let out := ({ id, kind := .socket } : Stream).write b host.minuted s
    ∃ hs, out.2.2 = s.2.note id hs ∧ tookOf hs ++ out.1.rest = b ∧ host.Calls s.1 out.2.1 ∧
      (out.1.failure = none → Healthy hs) ∧ ∀ failure, out.1.failure = some failure → Over hs := by
  unfold Stream.write
  split
  · rename_i hb
    rw [List.isEmpty_iff] at hb
    exact ⟨[], (Minutes.note_nil _ _).symm, hb.symm, .refl, fun _ => healthy_nil, nofun⟩
  · let flushed := flush b (host.write id b s.1).1
    have htaken : taken b flushed.rest ++ flushed.rest = b := taken_append (flush_suffix b _)
    refine ⟨flushed.happenings b, rfl, ?_, .single (.write id b s.1), ?_, ?_⟩
    · show tookOf (flushed.happenings b) ++ flushed.rest = b
      unfold Flushed.happenings
      rw [tookOf_append]
      split
      · simpa [tookOf] using htaken
      · simpa [tookOf] using htaken
    · intro hnone
      have hnone : flushed.failure = none := hnone
      rw [Flushed.happenings, hnone]
      exact healthy_took _
    · intro failure hsome
      have hsome : flushed.failure = some failure := hsome
      rw [Flushed.happenings, hsome]
      exact .intro (healthy_took _) (Or.inr rfl)

/-- Listeners are numbered as well, and no number is taken back while time
passes. -/
structure Host.NumbersAll (host : Host σ) (issued : σ → StreamId → Prop) : Prop extends
    host.Numbers issued where
  bound : ∀ {s s' address address' shared id},
    host.bind address shared s = (.ok (id, address'), s') → issued s' id
  slept : ∀ {s d id}, issued s id → issued (host.sleep d s) id

end Poll

namespace Worker

open Poll (Happening happening?)

/-! ## Callbacks -/

/-- What a component is told of a connection. -/
inductive Cue where
  | opened
  | message (b : Bytes)
  | heartbeat
  | error (e : Error)
  | closed
deriving DecidableEq

/-- A callback: what a component is told of which connection, what it queues for
the client meanwhile, and how it fails. -/
structure Callback where
  id : StreamId
  cue : Cue
  wrote : Bytes := []
  failure : Option Error := none
deriving DecidableEq

/-- The callbacks about one connection. -/
def callsOf (id : StreamId) (calls : List Callback) : List Callback :=
  calls.filter fun n => n.id = id

theorem callsOf_append (id : StreamId) (calls calls' : List Callback) :
    callsOf id (calls ++ calls') = callsOf id calls ++ callsOf id calls' :=
  List.filter_append _ _

theorem callsOf_eq_self {id : StreamId} {calls : List Callback} (h : ∀ n ∈ calls, n.id = id) :
    callsOf id calls = calls :=
  List.filter_eq_self.mpr fun n hn => decide_eq_true (h n hn)

theorem callsOf_eq_nil {id id' : StreamId} {calls : List Callback} (h : ∀ n ∈ calls, n.id = id)
    (hid : id' ≠ id) : callsOf id' calls = [] :=
  List.filter_eq_nil_iff.mpr fun n hn hsame => hid ((of_decide_eq_true hsame).symm.trans (h n hn))

/-- The connections that were opened in some callbacks. -/
def openedOf (calls : List Callback) : List StreamId :=
  (calls.filter fun n => n.cue = .opened).map (·.id)

theorem openedOf_append (calls calls' : List Callback) :
    openedOf (calls ++ calls') = openedOf calls ++ openedOf calls' := by
  unfold openedOf
  rw [List.filter_append, List.map_append]

theorem openedOf_cons {n : Callback} {calls : List Callback} (h : n.cue = .opened) :
    openedOf (n :: calls) = n.id :: openedOf calls := by
  unfold openedOf
  rw [List.filter_cons_of_pos (by simpa using h)]
  rfl

theorem openedOf_eq_nil {calls : List Callback} (h : ∀ n ∈ calls, n.cue ≠ .opened) :
    openedOf calls = [] := by
  unfold openedOf
  rw [List.filter_eq_nil_iff.mpr fun n hn => by simpa using h n hn]
  rfl

/-- All bytes that were queued in some callbacks. -/
def written (calls : List Callback) : Bytes :=
  calls.flatMap (·.wrote)

theorem written_append (calls calls' : List Callback) :
    written (calls ++ calls') = written calls ++ written calls' :=
  List.flatMap_append

/-- Every callback that fails is at once followed by one about this error. -/
def Answered : List Callback → Prop
  | [] => True
  | n :: rest =>
    (∀ e, n.failure = some e → ∃ answer ∈ rest.head?, answer.id = n.id ∧ answer.cue = .error e) ∧
      Answered rest

theorem Answered.append {calls calls' : List Callback} (h : Answered calls)
    (h' : Answered calls') : Answered (calls ++ calls') := by
  induction calls with
  | nil => exact h'
  | cons n rest ih =>
    refine ⟨fun e he => ?_, ih h.2⟩
    obtain ⟨answer, hanswer, hsame⟩ := h.1 e he
    refine ⟨answer, ?_, hsame⟩
    show answer ∈ (rest ++ calls').head?
    rw [List.head?_append, Option.mem_def.mp hanswer]
    rfl

theorem answered_singleton {n : Callback} (h : n.failure = none) : Answered [n] :=
  ⟨fun _ he => (nomatch h.symm.trans he), trivial⟩

/-- A callback between opening and closing. -/
def Callback.Midway (n : Callback) : Prop :=
  n.cue ≠ .opened ∧ n.cue ≠ .closed

/-- A connection was opened, once, and has not been closed. -/
inductive Begun : List Callback → Prop where
  | intro {first : Callback} {rest : List Callback} :
      first.cue = .opened → (∀ n ∈ rest, n.Midway) → Begun (first :: rest)

theorem Begun.append {calls more : List Callback} (h : Begun calls) (hmore : ∀ n ∈ more, n.Midway) :
    Begun (calls ++ more) := by
  cases h with
  | intro hfirst hrest =>
    refine .intro hfirst fun n hn => ?_
    rcases List.mem_append.mp hn with hn | hn
    · exact hrest n hn
    · exact hmore n hn

/-- The error of a result. -/
def failureOf : Except Error Unit → Option Error
  | .ok () => none
  | .error e => some e

variable {γ : Type}

/-- A component that writes down every callback. -/
def Component.noted (p : Component γ) : Component (List Callback × γ) where
  onOpen c g :=
    let (result, c', g') := p.onOpen c g.2
    let wrote := c'.outbound.drop c.outbound.length
    (result, c', g.1 ++ [⟨c.id, .opened, wrote, failureOf result⟩], g')
  onMessage c b g :=
    let (result, c', g') := p.onMessage c b g.2
    let wrote := c'.outbound.drop c.outbound.length
    (result, c', g.1 ++ [⟨c.id, .message b, wrote, failureOf result⟩], g')
  onClose c g := (g.1 ++ [⟨c.id, .closed, [], none⟩], p.onClose c g.2)
  onError c e g :=
    let (c', g') := p.onError c e g.2
    (c', g.1 ++ [⟨c.id, .error e, c'.outbound.drop c.outbound.length, none⟩], g')
  onHeartbeat c g :=
    let (c', g') := p.onHeartbeat c g.2
    (c', g.1 ++ [⟨c.id, .heartbeat, c'.outbound.drop c.outbound.length, none⟩], g')

/-- A connection after a callback: whatever was queued stays in front. -/
structure Connection.Extends (c c' : Connection) : Prop where
  id : c'.id = c.id
  outbound : c.outbound <+: c'.outbound

/-- All that a component does to a connection is to write to it and to ask that
it be closed. -/
structure Component.Proper (p : Component γ) : Prop where
  opens : ∀ (c : Connection) g, c.Extends (p.onOpen c g).2.1
  hears : ∀ (c : Connection) b g, c.Extends (p.onMessage c b g).2.1
  fails : ∀ (c : Connection) e g, c.Extends (p.onError c e g).1
  beats : ∀ (c : Connection) g, c.Extends (p.onHeartbeat c g).1

/-! ## Talks -/

/-- While its user is called about the connection `c`, the log gets `news`. -/
structure Talks (c c' : Connection) (log log' news : List Callback) : Prop where
  log : log' = log ++ news
  about : ∀ n ∈ news, n.id = c.id
  answered : Answered news
  id : c'.id = c.id
  outbound : c'.outbound = c.outbound ++ written news

namespace Talks

variable {c c' c'' : Connection} {log log' log'' news news' : List Callback}

theorem refl (c : Connection) (log : List Callback) : Talks c c log log [] where
  log := (List.append_nil log).symm
  about _ hn := nomatch hn
  answered := trivial
  id := rfl
  outbound := (List.append_nil c.outbound).symm

theorem trans (h : Talks c c' log log' news) (h' : Talks c' c'' log' log'' news') :
    Talks c c'' log log'' (news ++ news') where
  log := by rw [h'.log, h.log, List.append_assoc]
  about n hn := by
    rcases List.mem_append.mp hn with hn | hn
    · exact h.about n hn
    · exact (h'.about n hn).trans h.id
  answered := h.answered.append h'.answered
  id := h'.id.trans h.id
  outbound := by rw [h'.outbound, h.outbound, written_append, List.append_assoc]

/-- A connection may ask to be closed at any time. -/
theorem close (h : Talks c c' log log' news) : Talks c c'.close log log' news where
  log := h.log
  about := h.about
  answered := h.answered
  id := h.id
  outbound := h.outbound

end Talks

/-- What a callback queued is what the connection has more than before. -/
theorem Connection.Extends.outbound_eq {c c' : Connection} (h : c.Extends c') :
    c'.outbound = c.outbound ++ c'.outbound.drop c.outbound.length := by
  obtain ⟨more, hmore⟩ := h.outbound
  rw [← hmore, List.drop_left]

theorem talks_single {c c' : Connection} (h : c.Extends c') (log : List Callback) (cue : Cue) :
    let n : Callback := ⟨c.id, cue, c'.outbound.drop c.outbound.length, none⟩
    Talks c c' log (log ++ [n]) [n] where
  log := rfl
  about n hn := by
    cases List.mem_singleton.mp hn
    rfl
  answered := answered_singleton rfl
  id := h.id
  outbound := by
    rw [written, List.flatMap_singleton]
    exact h.outbound_eq

/-- A callback that fails and the one that answers it. -/
theorem talks_failing {c c' c'' : Connection} (h : c.Extends c') (h' : c'.Extends c'')
    (log : List Callback) (cue : Cue) (e : Error) :
    let n : Callback := ⟨c.id, cue, c'.outbound.drop c.outbound.length, some e⟩
    let answer : Callback := ⟨c'.id, .error e, c''.outbound.drop c'.outbound.length, none⟩
    Talks c c'' log (log ++ [n] ++ [answer]) [n, answer] where
  log := List.append_assoc _ _ _
  about n hn := by
    rcases List.mem_cons.mp hn with rfl | hn
    · rfl
    · cases List.mem_singleton.mp hn
      exact h.id
  answered := by
    refine ⟨fun e' he => ⟨_, rfl, h.id, ?_⟩, answered_singleton rfl⟩
    cases he
    rfl
  id := h'.id.trans h.id
  outbound := by
    rw [written, List.flatMap_cons, List.flatMap_singleton, ← List.append_assoc, ← h.outbound_eq]
    exact h'.outbound_eq

variable {p : Component γ}

theorem talks_onError (hp : p.Proper) (c : Connection) (e : Error) (g : List Callback × γ) :
    ∃ news, Talks c (p.noted.onError c e g).1 g.1 (p.noted.onError c e g).2.1 news ∧
      ∀ n ∈ news, n.Midway := by
  refine ⟨_, talks_single (hp.fails c e g.2) g.1 (.error e), fun n hn => ?_⟩
  cases List.mem_singleton.mp hn
  exact ⟨nofun, nofun⟩

theorem talks_onHeartbeat (hp : p.Proper) (c : Connection) (g : List Callback × γ) :
    ∃ news, Talks c (p.noted.onHeartbeat c g).1 g.1 (p.noted.onHeartbeat c g).2.1 news ∧
      ∀ n ∈ news, n.Midway := by
  refine ⟨_, talks_single (hp.beats c g.2) g.1 .heartbeat, fun n hn => ?_⟩
  cases List.mem_singleton.mp hn
  exact ⟨nofun, nofun⟩

/-- A callback that can fail, with the one that answers it if it does. -/
theorem talks_answered (hp : p.Proper) {c c' : Connection} (h : c.Extends c')
    (log : List Callback) (cue : Cue) (result : Except Error Unit) (g : γ) :
    let n : Callback := ⟨c.id, cue, c'.outbound.drop c.outbound.length, failureOf result⟩
    let out := match result with
      | .ok () => (c', log ++ [n], g)
      | .error e => p.noted.onError c' e (log ++ [n], g)
    ∃ news, Talks c out.1 log out.2.1 (n :: news) ∧ ∀ n ∈ news, n.Midway := by
  cases result with
  | ok _ => exact ⟨[], talks_single h log cue, fun _ hn => nomatch hn⟩
  | error e =>
    refine ⟨_, talks_failing h (hp.fails c' e g) log cue e, fun n hn => ?_⟩
    cases List.mem_singleton.mp hn
    exact ⟨nofun, nofun⟩

namespace Desk

/-- A client is heard in read calls.  The connection stays exactly if none of
these calls ended the stream or failed. -/
theorem talks_hear (hp : p.Proper) (events : List ReadEvent) (c : Connection)
    (g : List Callback × γ) :
    let out := hear p.noted events c g
    (∃ news, Talks c out.2.1 g.1 out.2.2.1 news ∧ ∀ n ∈ news, n.Midway) ∧
      (out.1.2 = true ∧ (events.take out.1.1).filterMap happening? = [] ∨
        out.1.2 = false ∧ ∃ h, (h = .ended ∨ h = .failed) ∧
          (events.take out.1.1).filterMap happening? = [h]) := by
  induction events generalizing c g with
  | nil => exact ⟨⟨[], .refl c g.1, fun _ hn => nomatch hn⟩, Or.inl ⟨rfl, rfl⟩⟩
  | cons event rest ih =>
    cases event with
    | wouldBlock => exact ⟨⟨[], .refl c g.1, fun _ hn => nomatch hn⟩, Or.inl ⟨rfl, rfl⟩⟩
    | interrupted => exact ih c g
    | failed failure =>
      exact ⟨talks_onError hp c _ g, Or.inr ⟨rfl, _, Or.inr rfl, rfl⟩⟩
    | data b =>
      cases b with
      | nil => exact ⟨⟨[], .refl c g.1, fun _ hn => nomatch hn⟩, Or.inr ⟨rfl, _, Or.inl rfl, rfl⟩⟩
      | cons b bs =>
        have hheard := hp.hears c (b :: bs) g.2
        rcases hout : p.onMessage c (b :: bs) g.2 with ⟨result, c', g'⟩
        rw [hout] at hheard
        have hnoted : p.noted.onMessage c (b :: bs) g = (result, c', g.1 ++ [⟨c.id,
            .message (b :: bs), c'.outbound.drop c.outbound.length, failureOf result⟩], g') := by
          simp only [Component.noted, hout]
        simp only [hear, hnoted]
        obtain ⟨news, htalks, hmidway⟩ :=
          talks_answered hp hheard g.1 (.message (b :: bs)) result g'
        have hmessage : Callback.Midway ⟨c.id, .message (b :: bs),
            c'.outbound.drop c.outbound.length, failureOf result⟩ := ⟨nofun, nofun⟩
        have hall := List.forall_mem_cons.mpr ⟨hmessage, hmidway⟩
        cases result with
        | ok _ =>
          obtain ⟨⟨more, hmore, hmidway'⟩, hcalls⟩ := ih c' _
          exact ⟨⟨_, htalks.trans hmore, List.forall_mem_append.mpr ⟨hall, hmidway'⟩⟩, hcalls⟩
        | error e => exact ⟨⟨_, htalks.close, hall⟩, Or.inl ⟨rfl, rfl⟩⟩

end Desk

end Worker

end Supervisor
