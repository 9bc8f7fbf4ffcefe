import Mathlib.Logic.Function.Basic
import Supervisor.Backend.Spawn
import Supervisor.Sim.World

/-!
# What started programs do by themselves

A program writes to its two outputs, closes them, and ends, and it does so at
any time: between two turns of the control loop, or between two calls of one
turn.  `Outside` is what has happened so far outside of the supervisor, and
`Outside.Later` relates it to whatever it may have become in the meantime.

`ProgramCalls.Faithful` says that the calls on programs behave as a system with
processes and pipes does, for some way to see what has happened outside in a
state of the system.

* A new program has pipes of its own, which no program had before.
* Read calls deliver all that is in the pipe when the last of them is made, and
  they come to an end of the pipe only if nobody is left to write to it.
* A process has ended with a code exactly if the program did.
* Whatever else is called, programs just go on.

`Scripted` is such a system.  Its programs follow a script, which says what they
do before each of the calls, and every script is possible (`Scripted.faithful`).
-/

namespace Supervisor.Backend

open Poll (Host Readiness)
open Wire (Bytes ReadEvent)

/-- The worker that a program runs. -/
def Started.uid (p : Started) : WorkerId :=
  ⟨p.pid.toUInt64⟩

/-- The pipe of an output. -/
def Started.pipe (p : Started) : Channel → StreamId
  | .output => p.output
  | .errors => p.errors

/-! ## One program -/

/-- What a program has done since it was started, and what was read of it. -/
structure Life where
  /-- All that was written to an output, in order. -/
  written : Channel → Bytes := fun _ => []
  /-- What was read from the pipe of an output, in order. -/
  read : Channel → Bytes := fun _ => []
  /-- Whether nobody is left who could write to the pipe.  This may be so before the program ends,
  and need not be so afterwards. -/
  ended : Channel → Bool := fun _ => false
  /-- The exit code, once the program has ended; without a code if a signal ended it. -/
  exit : Option (Option Int32) := none

namespace Life

variable {l l' l'' : Life} {c : Channel}

/-- What is in the pipe of an output. -/
def unread (l : Life) (c : Channel) : Bytes :=
  (l.written c).drop (l.read c).length

/-- Nothing is in the pipe of an output, and nothing will ever be. -/
def Drained (l : Life) (c : Channel) : Prop :=
  l.read c = l.written c ∧ (l.ended c = true ∨ l.exit ≠ none)

/-- What may have become of a life while nothing was read.  Who has ended writes no more, and
nobody writes to a pipe without writers. -/
structure Later (l l' : Life) : Prop where
  read : l'.read = l.read
  written : ∀ c, l.written c <+: l'.written c
  ended : ∀ c, l.ended c = true → l'.ended c = true ∧ l'.written c = l.written c
  exit : ∀ code, l.exit = some code → l'.exit = some code ∧ l'.written = l.written

theorem Later.refl (l : Life) : l.Later l :=
  ⟨rfl, fun _ => List.prefix_refl _, fun _ h => ⟨h, rfl⟩, fun _ h => ⟨h, rfl⟩⟩

theorem Later.trans (h : l.Later l') (h' : l'.Later l'') : l.Later l'' where
  read := h'.read.trans h.read
  written c := (h.written c).trans (h'.written c)
  ended c hc := by
    obtain ⟨hended, hsame⟩ := h.ended c hc
    obtain ⟨hended', hsame'⟩ := h'.ended c hended
    exact ⟨hended', hsame'.trans hsame⟩
  exit code hcode := by
    obtain ⟨hexit, hsame⟩ := h.exit code hcode
    obtain ⟨hexit', hsame'⟩ := h'.exit code hexit
    exact ⟨hexit', hsame'.trans hsame⟩

theorem Later.drained (h : l.Later l') (hd : l.Drained c) : l'.Drained c := by
  obtain ⟨hread, hover⟩ := hd
  rw [Drained, h.read, hread]
  rcases hover with hended | hexit
  · obtain ⟨hended', hsame⟩ := h.ended c hended
    exact ⟨hsame.symm, .inl hended'⟩
  · obtain ⟨code, hcode⟩ := Option.ne_none_iff_exists'.mp hexit
    obtain ⟨hexit', hsame⟩ := h.exit code hcode
    exact ⟨congrFun hsame.symm c, .inr (by simp [hexit'])⟩

/-- A life after all that is in the pipe of an output was read. -/
def take (l : Life) (c : Channel) : Life :=
  { l with read := Function.update l.read c (l.written c) }

end Life

/-! ## All programs -/

/-- What has happened outside of the supervisor. -/
structure Outside where
  /-- All programs that were started, in order. -/
  started : List Started
  life : Started → Life
  /-- What was relayed to each output of the supervisor. -/
  sink : Channel → Bytes

namespace Outside

variable {w w' w'' : Outside}

/-- The programs whose worker had an id, in the order of their starts. -/
def bearers (w : Outside) (uid : WorkerId) : List Started :=
  w.started.filter fun p => p.uid = uid

/-- The program that the id of a worker stands for: pids are given out again, so this is the one
that got it last. -/
def latest (w : Outside) (uid : WorkerId) : Option Started :=
  (w.bearers uid).getLast?

/-- A program is started. -/
def join (w : Outside) (p : Started) : Outside :=
  { w with started := w.started ++ [p], life := Function.update w.life p {} }

/-- All that is in a pipe is read. -/
def take (w : Outside) (p : Started) (c : Channel) : Outside :=
  { w with life := Function.update w.life p ((w.life p).take c) }

/-- Something is relayed. -/
def put (w : Outside) (c : Channel) (b : Bytes) : Outside :=
  { w with sink := Function.update w.sink c (w.sink c ++ b) }

/-- What may have become of the outside while the supervisor did nothing. -/
structure Later (w w' : Outside) : Prop where
  started : w'.started = w.started
  sink : w'.sink = w.sink
  life : ∀ p ∈ w.started, (w.life p).Later (w'.life p)

theorem Later.refl (w : Outside) : w.Later w :=
  ⟨rfl, rfl, fun _ _ => .refl _⟩

theorem Later.trans (h : w.Later w') (h' : w'.Later w'') : w.Later w'' where
  started := h'.started.trans h.started
  sink := h'.sink.trans h.sink
  life p hp := (h.life p hp).trans (h'.life p (h.started ▸ hp))

/-- What is relayed makes no difference to programs. -/
theorem Later.put (h : w.Later w') (c : Channel) (b : Bytes) : (w.put c b).Later (w'.put c b) where
  started := h.started
  sink := by rw [Outside.put, Outside.put, h.sink]
  life := h.life

/-- No program was started in the meantime, and who had ended still has. -/
structure Onward (w w' : Outside) : Prop where
  started : w'.started = w.started
  exit : ∀ p ∈ w.started, ∀ code, (w.life p).exit = some code → (w'.life p).exit = some code

theorem Onward.refl (w : Outside) : w.Onward w :=
  ⟨rfl, fun _ _ _ h => h⟩

theorem Onward.trans (h : w.Onward w') (h' : w'.Onward w'') : w.Onward w'' where
  started := h'.started.trans h.started
  exit p hp code hcode := h'.exit p (h.started ▸ hp) code (h.exit p hp code hcode)

theorem Onward.exit_ne_none (h : w.Onward w') {p : Started} (hp : p ∈ w.started)
    (hexit : (w.life p).exit ≠ none) : (w'.life p).exit ≠ none := by
  obtain ⟨code, hcode⟩ := Option.ne_none_iff_exists'.mp hexit
  rw [h.exit p hp code hcode]
  exact Option.some_ne_none code

theorem Later.onward (h : w.Later w') : w.Onward w' :=
  ⟨h.started, fun p hp code hcode => ((h.life p hp).exit code hcode).1⟩

section Take

variable (w : Outside) (p q : Started) (c c' : Channel)

theorem written_take : ((w.take p c).life q).written = (w.life q).written := by
  by_cases hq : q = p
  · subst hq
    simp [take, Life.take]
  · simp [take, hq]

theorem ended_take : ((w.take p c).life q).ended = (w.life q).ended := by
  by_cases hq : q = p
  · subst hq
    simp [take, Life.take]
  · simp [take, hq]

theorem exit_take : ((w.take p c).life q).exit = (w.life q).exit := by
  by_cases hq : q = p
  · subst hq
    simp [take, Life.take]
  · simp [take, hq]

theorem read_take_self : ((w.take p c).life p).read c = (w.life p).written c := by
  simp [take, Life.take]

theorem read_take_of_ne {q : Started} {c' : Channel} (h : ¬ (q = p ∧ c' = c)) :
    ((w.take p c).life q).read c' = (w.life q).read c' := by
  by_cases hq : q = p
  · subst hq
    have hc : c' ≠ c := fun hc => h ⟨rfl, hc⟩
    simp [take, Life.take, hc]
  · simp [take, hq]

end Take

/-- Nothing is left to read if nobody is left to write. -/
theorem drained_take_self {w : Outside} {p : Started} {c : Channel}
    (h : (w.life p).ended c = true ∨ (w.life p).exit ≠ none) :
    ((w.take p c).life p).Drained c := by
  rw [Life.Drained, read_take_self, written_take, ended_take, exit_take]
  exact ⟨rfl, h⟩

theorem drained_take {w : Outside} {q : Started} {c' : Channel} (h : (w.life q).Drained c')
    (p : Started) (c : Channel) : ((w.take p c).life q).Drained c' := by
  rw [Life.Drained, written_take, ended_take, exit_take]
  refine ⟨?_, h.2⟩
  by_cases hpipe : q = p ∧ c' = c
  · obtain ⟨rfl, rfl⟩ := hpipe
    exact read_take_self w q c'
  · rw [read_take_of_ne _ _ _ hpipe]
    exact h.1

theorem sink_put_self (w : Outside) (c : Channel) (b : Bytes) :
    (w.put c b).sink c = w.sink c ++ b :=
  Function.update_self _ _ _

theorem sink_put_of_ne {c c' : Channel} (h : c' ≠ c) (w : Outside) (b : Bytes) :
    (w.put c b).sink c' = w.sink c' :=
  Function.update_of_ne h _ _

theorem onward_take (w : Outside) (p : Started) (c : Channel) : w.Onward (w.take p c) :=
  ⟨rfl, fun q _ _ h => (exit_take w p q c).trans h⟩

theorem onward_put (w : Outside) (c : Channel) (b : Bytes) : w.Onward (w.put c b) :=
  ⟨rfl, fun _ _ _ h => h⟩

theorem Onward.bearers (h : w.Onward w') (uid : WorkerId) : w'.bearers uid = w.bearers uid := by
  rw [Outside.bearers, Outside.bearers, h.started]

theorem Onward.latest (h : w.Onward w') (uid : WorkerId) : w'.latest uid = w.latest uid := by
  rw [Outside.latest, Outside.latest, h.bearers]

theorem mem_bearers {p : Started} {uid : WorkerId} :
    p ∈ w.bearers uid ↔ p ∈ w.started ∧ p.uid = uid := by
  simp [bearers]

theorem mem_of_latest {p : Started} {uid : WorkerId} (h : w.latest uid = some p) :
    p ∈ w.started ∧ p.uid = uid :=
  mem_bearers.mp (List.mem_of_getLast? h)

theorem bearers_join_self (w : Outside) (p : Started) :
    (w.join p).bearers p.uid = w.bearers p.uid ++ [p] := by
  simp [bearers, join]

theorem bearers_join_of_ne {p : Started} {uid : WorkerId} (h : p.uid ≠ uid) (w : Outside) :
    (w.join p).bearers uid = w.bearers uid := by
  simp [bearers, join, h]

theorem life_join_of_mem {p q : Started} (hp : p ∉ w.started) (hq : q ∈ w.started) :
    (w.join p).life q = w.life q :=
  Function.update_of_ne (fun h : q = p => hp (h ▸ hq)) _ _

end Outside

/-! ## The calls of a system -/

variable {σ : Type}

/-- The calls deal with processes and pipes.  Every state tells what has happened outside. -/
structure ProgramCalls.Faithful (calls : ProgramCalls σ) (view : σ → Outside) : Prop where
  start : ∀ {vars s p s'}, calls.start vars s = (.ok p, s') →
    p.output ≠ p.errors ∧ (∀ q ∈ (view s).started, ∀ c c', p.pipe c ≠ q.pipe c') ∧
      ((view s).join p).Later (view s')
  refused : ∀ {vars s failure s'}, calls.start vars s = (.error failure, s') →
    (view s).Later (view s')
  /-- Programs may go on writing while a pipe is read.  So what is delivered is what is in the pipe
  at some time between the call and its return. -/
  read : ∀ s, ∀ p ∈ (view s).started, ∀ c, ∃ w, (view s).Later w ∧
    ReadEvent.delivered (calls.host.incoming (p.pipe c) s) = (w.life p).unread c ∧
    (ReadEvent.failure? (calls.host.incoming (p.pipe c) s) = none ∨
      (ReadEvent.failure? (calls.host.incoming (p.pipe c) s) = some Wire.Failure.endOfStream ∧
        (w.life p).ended c = true)) ∧
    (w.take p c).Later (view (calls.host.consume (p.pipe c)
      (calls.host.incoming (p.pipe c) s).length s))
  relay : ∀ c b s, ((view s).put c b).Later (view (calls.relay c b s))
  poll : ∀ entries timeout s, (view s).Later (view (calls.host.poll entries timeout s).2)
  close : ∀ id s, (view s).Later (view (calls.host.close id s))
  signal : ∀ uid signal s, (view s).Later (view (calls.signal uid signal s))
  ended : ∀ {s uid p}, (view s).latest uid = some p →
    calls.ended? uid s = ((view s).life p).exit

/-! ## Programs that follow a script -/

/-- What a program may do. -/
inductive Deed where
  | writes (c : Channel) (b : Bytes)
  /-- The last writer of an output closes it. -/
  | hangsUp (c : Channel)
  | exits (code : Option Int32)
deriving DecidableEq, Repr

/-- A life after a deed; what cannot be done any more has no effect. -/
def Life.after (l : Life) : Deed → Life
  | .writes c b =>
    if l.ended c = true ∨ l.exit ≠ none then l
    else { l with written := Function.update l.written c (l.written c ++ b) }
  | .hangsUp c => { l with ended := Function.update l.ended c true }
  | .exits code => if l.exit ≠ none then l else { l with exit := some code }

theorem Life.later_after (l : Life) (d : Deed) : l.Later (l.after d) := by
  cases d with
  | writes c b =>
    simp only [after]
    split
    · exact .refl l
    · rename_i hopen
      obtain ⟨hended, hexit⟩ := not_or.mp hopen
      rw [not_not] at hexit
      refine ⟨rfl, fun c' => ?_, fun c' hc' => ⟨hc', ?_⟩, fun code hcode => ?_⟩
      · by_cases hc : c' = c
        · simp [hc]
        · simp [hc]
      · have hc : c' ≠ c := fun hc => hended (hc ▸ hc')
        exact Function.update_of_ne hc _ _
      · rw [hexit] at hcode
        cases hcode
  | hangsUp c =>
    refine ⟨rfl, fun _ => List.prefix_refl _, fun c' hc' => ⟨?_, rfl⟩, fun _ h => ⟨h, rfl⟩⟩
    by_cases hc : c' = c
    · simp [after, hc]
    · simpa [after, hc] using hc'
  | exits code =>
    simp only [after]
    split
    · exact .refl l
    · rename_i hexit
      rw [not_not] at hexit
      refine ⟨rfl, fun _ => List.prefix_refl _, fun _ h => ⟨h, rfl⟩, fun code' hcode' => ?_⟩
      rw [hexit] at hcode'
      cases hcode'

namespace Outside

/-- The pipes of all programs. -/
def pipes (w : Outside) : List StreamId :=
  w.started.flatMap fun p => [p.output, p.errors]

/-- Whose output a pipe is. -/
def find? (w : Outside) (id : StreamId) : Option (Started × Channel) :=
  w.started.findSome? fun p =>
    if p.output = id then some (p, .output) else if p.errors = id then some (p, .errors) else none

/-- What a poll finds out about a stream. -/
def readiness (w : Outside) (id : StreamId) : Readiness :=
  match w.find? id with
  | none => {}
  | some (p, c) =>
    { readable := !((w.life p).unread c).isEmpty, hangup := (w.life p).ended c }

/-- Programs do one thing after the other. -/
def play (w : Outside) (deeds : List (Started × Deed)) : Outside :=
  deeds.foldl (fun w (p, d) => { w with life := Function.update w.life p ((w.life p).after d) }) w

theorem later_play (w : Outside) (deeds : List (Started × Deed)) : w.Later (w.play deeds) := by
  induction deeds generalizing w with
  | nil => exact .refl w
  | cons x deeds ih =>
    obtain ⟨p, d⟩ := x
    have hstep : w.Later { w with life := Function.update w.life p ((w.life p).after d) } := by
      refine ⟨rfl, rfl, fun q _ => ?_⟩
      by_cases hq : q = p
      · subst hq
        simpa using Life.later_after _ d
      · simpa [hq] using Life.Later.refl _
    exact hstep.trans (ih _)

theorem pipe_mem_pipes {w : Outside} {p : Started} (hp : p ∈ w.started) (c : Channel) :
    p.pipe c ∈ w.pipes := by
  refine List.mem_flatMap.mpr ⟨p, hp, ?_⟩
  cases c <;> simp [Started.pipe]

/-- Every pipe is found, if all are different. -/
theorem find?_pipe {w : Outside} (h : w.pipes.Nodup) {p : Started} (hp : p ∈ w.started)
    (c : Channel) : w.find? (p.pipe c) = some (p, c) := by
  obtain ⟨started, life, sink⟩ := w
  induction started with
  | nil => cases hp
  | cons q started ih =>
    have hsplit : ([q.output, q.errors] ++ started.flatMap fun p => [p.output, p.errors]).Nodup := h
    obtain ⟨hown, hrest, hother⟩ := List.nodup_append.mp hsplit
    rw [find?, List.findSome?_cons]
    rcases List.mem_cons.mp hp with rfl | hp
    · have hne : p.output ≠ p.errors := by simpa using hown
      cases c with
      | output => simp [Started.pipe]
      | errors => simp [Started.pipe, hne]
    · have hpipe : p.pipe c ∈ started.flatMap fun p => [p.output, p.errors] :=
        pipe_mem_pipes (w := ⟨started, life, sink⟩) hp c
      have houtput : q.output ≠ p.pipe c := hother _ (by simp) _ hpipe
      have herrors : q.errors ≠ p.pipe c := hother _ (by simp) _ hpipe
      rw [if_neg houtput, if_neg herrors]
      exact ih hrest hp

theorem pipe_ne_of_notMem {w : Outside} {p : Started} (houtput : p.output ∉ w.pipes)
    (herrors : p.errors ∉ w.pipes) {q : Started} (hq : q ∈ w.started) (c c' : Channel) :
    p.pipe c ≠ q.pipe c' := by
  have hmem := pipe_mem_pipes hq c'
  cases c with
  | output => exact fun h : p.output = q.pipe c' => houtput (h ▸ hmem)
  | errors => exact fun h : p.errors = q.pipe c' => herrors (h ▸ hmem)

end Outside

/-- Programs that follow a script. -/
structure Scripted where
  outside : Outside
  nodup_pipes : outside.pipes.Nodup
  /-- What programs do before each of the calls to come. -/
  script : List (List (Started × Deed))
  /-- The programs to come. -/
  launches : List Started

namespace Scripted

/-- Something happens other than a start. -/
def become (s : Scripted) (w : Outside) (h : w.started = s.outside.started) : Scripted :=
  { s with outside := w, nodup_pipes := by rw [Outside.pipes, h]; exact s.nodup_pipes }

/-- Programs do what is due before the next call. -/
def pass (s : Scripted) : Scripted :=
  { s.become (s.outside.play (s.script.headD [])) (Outside.later_play _ _).started with
    script := s.script.tail }

/-- What read calls return. -/
def incoming (id : StreamId) (s : Scripted) : List ReadEvent :=
  match s.pass.outside.find? id with
  | none => [.failed ⟨.notConnected, "not connected"⟩]
  | some (p, c) =>
    (Sim.World.chunks ((s.pass.outside.life p).unread c)).map .data ++
      [if (s.pass.outside.life p).ended c then .data [] else .wouldBlock]

/-- Makes these calls. -/
def consume (id : StreamId) (_ : Nat) (s : Scripted) : Scripted :=
  match s.pass.outside.find? id with
  | none => s.pass
  | some (p, c) => s.pass.become (s.pass.outside.take p c) rfl

/-- The pipes that a program comes with are new. -/
def Fits (s : Scripted) (p : Started) : Prop :=
  p.output ≠ p.errors ∧ p.output ∉ s.outside.pipes ∧ p.errors ∉ s.outside.pipes

instance (s : Scripted) (p : Started) : Decidable (s.Fits p) :=
  inferInstanceAs (Decidable (_ ∧ _ ∧ _))

/-- A program is started. -/
def join (s : Scripted) (p : Started) (h : s.Fits p) : Scripted where
  outside := s.outside.join p
  nodup_pipes := by
    rw [Outside.pipes, Outside.join, List.flatMap_append, List.nodup_append]
    refine ⟨s.nodup_pipes, by simpa using h.1, fun id hid id' hid' => ?_⟩
    rintro rfl
    have hpipe : id = p.output ∨ id = p.errors := by simpa using hid'
    rcases hpipe with rfl | rfl
    · exact h.2.1 hid
    · exact h.2.2 hid
  script := s.script
  launches := s.launches.tail

/-- Starts the next program, unless it comes with a pipe that another one has. -/
def start (s : Scripted) : Except Failure Started × Scripted :=
  match s.launches with
  | [] => (.error ⟨.notFound, "no program"⟩, s.pass)
  | p :: _ =>
    if h : s.Fits p then (.ok p, (s.join p h).pass) else (.error ⟨.other, "no pipe"⟩, s.pass)

/-- The streams of the system are the pipes of programs. -/
def host : Host Scripted where
  poll _ _ s := (.reported s.pass.outside.readiness, s.pass)
  incoming := incoming
  consume := consume
  write _ _ s := ([], s)
  accept _ s := ([], s)
  close _ s := s.pass
  bind _ _ s := (.error ⟨.other, "no socket"⟩, s)
  connect _ s := (.error ⟨.other, "no socket"⟩, s)
  clock _ := .zero
  present _ := 0
  usage _ := (0, 0)
  sleep _ s := s.pass
  roll s := (fun _ => 0, s)

def calls : ProgramCalls Scripted where
  host := host
  start _ s := s.start
  signal _ _ s := s.pass
  ended? uid s := (s.outside.latest uid).bind fun p => (s.outside.life p).exit
  relay c b s := (s.become (s.outside.put c b) rfl).pass

theorem later_pass (s : Scripted) : s.outside.Later s.pass.outside :=
  Outside.later_play _ _

/-- A string that is not empty is cut into its first chunk and the chunks of the rest. -/
theorem chunks_of_ne_nil {b : Bytes} (h : b ≠ []) :
    Sim.World.chunks b = b.take Poll.readChunk :: Sim.World.chunks (b.drop Poll.readChunk) := by
  have hlen := List.length_pos_iff.mpr h
  have hcount : (b.length + Poll.readChunk - 1) / Poll.readChunk =
      ((b.drop Poll.readChunk).length + Poll.readChunk - 1) / Poll.readChunk + 1 := by
    rw [List.length_drop, Poll.readChunk]
    omega
  rw [Sim.World.chunks, hcount, List.range_succ_eq_map, List.map_cons, Nat.zero_mul,
    List.drop_zero, List.map_map, Sim.World.chunks]
  refine congrArg (_ :: ·) (List.map_congr_left fun i _ => ?_)
  rw [List.drop_drop, Function.comp_apply, Nat.succ_mul, Nat.add_comm]

/-- Reading in chunks delivers the whole, and ends as the calls after the last chunk do. -/
theorem delivered_chunks (b : Bytes) (events : List ReadEvent) :
    ReadEvent.delivered ((Sim.World.chunks b).map .data ++ events) =
        b ++ ReadEvent.delivered events ∧
      ReadEvent.failure? ((Sim.World.chunks b).map .data ++ events) =
        ReadEvent.failure? events := by
  induction hn : b.length using Nat.strongRecOn generalizing b with
  | ind n ih =>
    by_cases hb : b = []
    · subst hb
      exact ⟨rfl, rfl⟩
    · have hlen := List.length_pos_iff.mpr hb
      obtain ⟨hdelivered, hfailure⟩ := ih (b.drop Poll.readChunk).length
        (by rw [List.length_drop, Poll.readChunk]; omega) _ rfl
      obtain ⟨x, xs, hx⟩ := List.exists_cons_of_ne_nil
        (show b.take Poll.readChunk ≠ [] by simp [hb, Poll.readChunk])
      rw [chunks_of_ne_nil hb, hx, List.map_cons, List.cons_append, ReadEvent.delivered,
        ReadEvent.failure?, hdelivered, hfailure, ← List.append_assoc, ← hx, List.take_append_drop]
      exact ⟨rfl, rfl⟩

/-- Whatever the script is, the calls are those of a system with processes and pipes. -/
theorem faithful : calls.Faithful outside where
  start {vars s p s'} h := by
    have hstart : s.start = (.ok p, s') := h
    unfold start at hstart
    split at hstart
    · cases hstart
    · split at hstart
      · rename_i hfresh
        cases hstart
        exact ⟨hfresh.1, fun q hq => Outside.pipe_ne_of_notMem hfresh.2.1 hfresh.2.2 hq,
          later_pass (s.join p hfresh)⟩
      · cases hstart
  refused {vars s failure s'} h := by
    have hstart : s.start = (.error failure, s') := h
    unfold start at hstart
    split at hstart
    · cases hstart
      exact later_pass s
    · split at hstart
      · cases hstart
      · cases hstart
        exact later_pass s
  read s p hp c := by
    have hstarted : p ∈ s.pass.outside.started := (later_pass s).started ▸ hp
    have hfind := Outside.find?_pipe s.pass.nodup_pipes hstarted c
    have hincoming : calls.host.incoming (p.pipe c) s =
        (Sim.World.chunks ((s.pass.outside.life p).unread c)).map .data ++
          [if (s.pass.outside.life p).ended c then .data [] else .wouldBlock] := by
      show incoming (p.pipe c) s = _
      unfold incoming
      rw [hfind]
    have hconsume : (calls.host.consume (p.pipe c)
        (calls.host.incoming (p.pipe c) s).length s).outside = s.pass.outside.take p c := by
      simp only [calls, host, consume]
      rw [hfind]
      rfl
    obtain ⟨hdelivered, hfailure⟩ := delivered_chunks ((s.pass.outside.life p).unread c)
      [if (s.pass.outside.life p).ended c then .data [] else .wouldBlock]
    refine ⟨s.pass.outside, later_pass s, ?_, ?_, hconsume ▸ .refl _⟩
    · rw [hincoming, hdelivered]
      split <;> simp [ReadEvent.delivered]
    · rw [hincoming, hfailure]
      split
      · rename_i hended
        exact .inr ⟨rfl, hended⟩
      · exact .inl rfl
  relay c b s := later_pass (s.become (s.outside.put c b) rfl)
  poll _ _ s := later_pass s
  close _ s := later_pass s
  signal _ _ s := later_pass s
  ended {s uid p} h := by
    show (s.outside.latest uid).bind _ = _
    rw [h]
    rfl

end Scripted

end Supervisor.Backend
