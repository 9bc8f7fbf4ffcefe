import Supervisor.Proofs.Worker.Bracketing
import Supervisor.Worker.Echo

/-!
# What becomes of replies

A component queues its replies, and they are written when there is room.  This
module says how far they get.

* `replies_written_until_over` follows the bytes from the callbacks to the
  stream.
* `reply_cut_off` is a client that says goodbye too early: when it ends its
  stream, the replies that wait are dropped.
-/

namespace Supervisor.Worker

open Poll (Happening Healthy Host Minutes Over tookOf)
open Wire (Bytes)

variable {γ σ : Type} {p : Component γ} {host : Host σ} {issued : σ → StreamId → Prop}

/-! ## Open and closed connections -/

theorem Done.exists_eq {calls : List Callback} (h : Done calls) :
    ∃ before last, calls = before ++ [last] ∧ last.cue = .closed := by
  cases h with
  | intro _ hlast => exact ⟨_, _, rfl, hlast⟩

theorem not_begun_nil : ¬ Begun [] :=
  nofun

theorem not_done_nil : ¬ Done [] := by
  intro h
  obtain ⟨before, last, hcalls, _⟩ := h.exists_eq
  exact List.append_ne_nil_of_right_ne_nil before (List.cons_ne_nil last []) hcalls.symm

/-- An open connection is not closed. -/
theorem Begun.not_done {calls : List Callback} (h : Begun calls) : ¬ Done calls := by
  intro hdone
  obtain ⟨before, last, hcalls, hlast⟩ := hdone.exists_eq
  cases h with
  | @intro first rest hfirst hrest =>
    have hmem : last ∈ first :: rest := by
      rw [hcalls]
      exact List.mem_concat_self
    rcases List.mem_cons.mp hmem with rfl | hmem
    · cases hlast.symm.trans hfirst
    · exact (hrest last hmem).2 hlast

/-- A closed connection has got all that was queued for it, or its stream is
over. -/
theorem Tidy.replies {listener : StreamId} {waiting : List StreamId} {d : Minuted γ σ}
    (h : Tidy issued listener waiting d) {id : StreamId} (hdone : Done (callsOf id d.component.1)) :
    Spent (written (callsOf id d.component.1)) (d.world.2.of id) := by
  have hid : id ≠ listener := by
    rintro rfl
    rw [show callsOf id d.component.1 = [] from h.listening.calls] at hdone
    exact not_done_nil hdone
  rcases (h.standing id hid).stages with ⟨hnone, _⟩ | ⟨_, _, hin, _⟩ |
    ⟨calls, last, hcalls, _, _, _, hsilent, hspent⟩
  · rw [hnone] at hdone
    exact absurd hdone not_done_nil
  · exact absurd hdone hin.begun.not_done
  · have hwritten : written (calls ++ [last]) = written calls := by
      rw [written_append, written, written, List.flatMap_singleton, hsilent, List.append_nil]
    rw [hcalls, hwritten]
    exact hspent

/-- What was queued for an open connection has been taken or still waits. -/
theorem Tidy.serving {listener : StreamId} {waiting : List StreamId} {d : Minuted γ σ}
    (h : Tidy issued listener waiting d) {id : StreamId}
    (hbegun : Begun (callsOf id d.component.1)) :
    ∃ key c, d.selector.keys.find? id = some key ∧ key.attachment = some c ∧
      tookOf (d.world.2.of id) ++ c.outbound = written (callsOf id d.component.1) ∧
      (key.interest.write = true ↔ c.outbound ≠ []) ∧ Healthy (d.world.2.of id) := by
  have hid : id ≠ listener := by
    rintro rfl
    rw [show callsOf id d.component.1 = [] from h.listening.calls] at hbegun
    exact not_begun_nil hbegun
  rcases (h.standing id hid).stages with ⟨hnone, _⟩ | ⟨key, c, hin, hhealthy, hwriting⟩ |
    ⟨calls, last, hcalls, _, hbefore, hlast, _⟩
  · rw [hnone] at hbegun
    exact absurd hbegun not_begun_nil
  · exact ⟨key, c, hin.found, hin.attached, hin.account, hwriting, hhealthy⟩
  · rw [hcalls] at hbegun
    exact absurd (.intro hbefore hlast) hbegun.not_done

/-! ## An echo in a rehearsal -/

namespace Echo

theorem extends_answer (b : Bytes) (c : Connection) : c.Extends (answer b c).2 := by
  fun_induction answer b c with
  | case1 => exact ⟨rfl, List.prefix_rfl⟩
  | case2 _ _ _ _ _ _ ih => exact ⟨ih.id, (List.prefix_append _ _).trans ih.outbound⟩
  | case3 => exact ⟨rfl, List.prefix_rfl⟩

/-- The echo does nothing to a connection but write and ask to close. -/
theorem proper : component.Proper where
  opens _ _ := ⟨rfl, List.prefix_rfl⟩
  hears c _ _ := extends_answer _ c
  fails _ _ _ := ⟨rfl, List.prefix_rfl⟩
  beats _ _ := ⟨rfl, List.prefix_rfl⟩

open Component Bus.Broker

/-- An echo in a rehearsal, with what happened on its streams. -/
abbrev Scene :=
  Serving (List Callback × State) × ((Nat × Poll.Script) × Minutes)

namespace Scene

/-- The streams follow a script and the echo takes a step. -/
def next (scene : Scene) (script : Poll.Script) : Scene :=
  (step component.noted rehearsal.minuted scene.1 ((scene.2.1.1, script), scene.2.2)).2

/-- The scene comes up in a run. -/
def Played (scene : Scene) : Prop :=
  Run component rehearsal (fun s id => id.val.toNat < s.1) scene.1 scene.2

theorem Played.next {scene : Scene} (h : scene.Played) (script : Poll.Script) :
    (scene.next script).Played :=
  (Run.staged h script).step

/-- The callbacks about a client. -/
def calls (scene : Scene) (id : StreamId) : List Callback :=
  callsOf id scene.1.component.1

/-- What waits for a client, and whether its stream is watched for room. -/
def waiting (scene : Scene) (id : StreamId) : Option (Bytes × Bool) :=
  scene.1.front.bind fun f =>
    (f.reactor.selector? f.selector).bind fun selector =>
      (selector.keys.find? id).bind fun key =>
        key.attachment.map fun c => (c.outbound, key.interest.write)

end Scene

/-- A client is there. -/
def greeted : Scene :=
  Scene.next (rehearsed Table.empty) {}

theorem played_greeted : greeted.Played :=
  Scene.Played.next (run_rehearsed component Table.empty) {}

/-- The client says hello, but there is only room for two bytes of the reply. -/
def hindered : Scene :=
  greeted.next { arriving := [(⟨2⟩, Wire.utf8 "hello\n")], room := 2 }

/-- Now there is room for the others, and the client quits. -/
def relieved : Scene :=
  hindered.next { arriving := [(⟨2⟩, Wire.utf8 "quit\n")], room := 4 }

/-- The client says hello, quits and ends its stream, all at once. -/
def hurried : Scene :=
  greeted.next { arriving := [(⟨2⟩, Wire.utf8 "hello\nquit\n"), (⟨2⟩, [])], room := 1000 }

end Echo

/-! ## Replies -/

open Component in
/-- Replies are written in the order in which they were queued, without gaps.
Throughout a run, what the stream of an open connection took and what still
waits is all that was ever queued for it, and readiness for writing is of
interest exactly while something waits.  A closed connection has got all
replies, unless its stream is over, which means that it failed or that the
client ended it.  After that a stream takes nothing. -/
theorem replies_written_until_over {v : Serving (List Callback × γ)} {s : σ × Minutes}
    (hp : p.Proper) (hnumbers : host.NumbersAll issued) (h : Run p host issued v s) :
    ∃ f sel, v.front = some f ∧ f.reactor.selector? f.selector = some sel ∧
      (∀ id, Begun (callsOf id v.component.1) →
        ∃ key c, sel.keys.find? id = some key ∧ key.attachment = some c ∧
          tookOf (s.2.of id) ++ c.outbound = written (callsOf id v.component.1) ∧
          (key.interest.write = true ↔ c.outbound ≠ []) ∧ Healthy (s.2.of id)) ∧
      ∀ id, Done (callsOf id v.component.1) →
        tookOf (s.2.of id) <+: written (callsOf id v.component.1) ∧
          (tookOf (s.2.of id) ≠ written (callsOf id v.component.1) → Over (s.2.of id)) := by
  obtain ⟨f, o, hunderway⟩ := h.underway hp hnumbers
  have htidy := hunderway.tidy
  refine ⟨f, o.selector, hunderway.front, hunderway.selector?, fun id hbegun => ?_,
    fun id hdone => ?_⟩
  · exact htidy.serving hbegun
  · have hspent := htidy.replies hdone
    refine ⟨hspent.taken, fun hnot => ?_⟩
    rcases hspent.reason with hover | ⟨_, hall⟩
    · exact hover
    · exact absurd hall hnot

open Echo in
/-- While there is no room the reply waits, and it is complete when the
connection is closed. -/
theorem replies_written_until_over_relieved :
    hindered.waiting ⟨2⟩ = some (Wire.utf8 "llo\n", true) ∧
    tookOf (hindered.2.2.of ⟨2⟩) ++ Wire.utf8 "llo\n" = written (hindered.calls ⟨2⟩) ∧
    Done (relieved.calls ⟨2⟩) ∧
    tookOf (relieved.2.2.of ⟨2⟩) = written (relieved.calls ⟨2⟩) := by
  have hhindered : hindered.Played := played_greeted.next _
  have hrelieved : relieved.Played := hhindered.next _
  obtain ⟨f, selector, hfront, hselector, hserving, -⟩ :=
    replies_written_until_over proper Component.rehearsal_numbersAll hhindered
  obtain ⟨-, -, -, -, -, hclosed⟩ :=
    replies_written_until_over proper Component.rehearsal_numbersAll hrelieved
  have hwaiting : hindered.waiting ⟨2⟩ = some (Wire.utf8 "llo\n", true) := by decide +kernel
  have haccount : tookOf (hindered.2.2.of ⟨2⟩) ++ Wire.utf8 "llo\n" =
      written (hindered.calls ⟨2⟩) := by
    have hcalls : hindered.calls ⟨2⟩ = [⟨⟨2⟩, .opened, [], none⟩,
        ⟨⟨2⟩, .message (Wire.utf8 "hello\n"), Wire.utf8 "hello\n", none⟩] := by
      decide +kernel
    have hbegun : Begun (hindered.calls ⟨2⟩) := by
      rw [hcalls]
      exact .intro rfl (by simp [Callback.Midway])
    obtain ⟨key, c, hfound, hattached, haccount, -⟩ := hserving ⟨2⟩ hbegun
    have hlook : some (c.outbound, key.interest.write) = hindered.waiting ⟨2⟩ := by
      simp only [Scene.waiting, hfront, hselector, hfound, hattached, Option.bind_some,
        Option.map_some]
    obtain ⟨hrest, -⟩ := Prod.mk.inj (Option.some.inj (hlook.trans hwaiting))
    rw [hrest] at haccount
    exact haccount
  have hcalls : relieved.calls ⟨2⟩ = [⟨⟨2⟩, .opened, [], none⟩,
      ⟨⟨2⟩, .message (Wire.utf8 "hello\n"), Wire.utf8 "hello\n", none⟩,
      ⟨⟨2⟩, .message (Wire.utf8 "quit\n"), [], none⟩] ++ [⟨⟨2⟩, .closed, [], none⟩] := by
    decide +kernel
  have hdone : Done (relieved.calls ⟨2⟩) := by
    rw [hcalls]
    exact .intro (.intro rfl (by simp [Callback.Midway])) rfl
  refine ⟨hwaiting, haccount, hdone, ?_⟩
  obtain ⟨-, hover⟩ := hclosed ⟨2⟩ hdone
  have htraffic : relieved.2.2.of ⟨2⟩ = [.took (Wire.utf8 "he"), .took (Wire.utf8 "llo\n")] := by
    decide +kernel
  by_contra hnot
  have hmem := (hover hnot).mem
  rw [htraffic] at hmem
  exact absurd hmem (by decide)

open Echo in
/-- A reply can be lost although nothing has failed.  The client was answered,
and the connection closed at its wish.  There was room for the reply, but the
stream had ended, so it was not even offered. -/
theorem reply_cut_off :
    hurried.Played ∧ Done (hurried.calls ⟨2⟩) ∧
    written (hurried.calls ⟨2⟩) = Wire.utf8 "hello\n" ∧ hurried.2.2.of ⟨2⟩ = [.ended] ∧
    hurried.2.1.2.room = 1000 ∧
    ¬ ∀ id, Done (hurried.calls id) → tookOf (hurried.2.2.of id) ≠ written (hurried.calls id) →
      Happening.failed ∈ hurried.2.2.of id := by
  have hcalls : hurried.calls ⟨2⟩ = [⟨⟨2⟩, .opened, [], none⟩,
      ⟨⟨2⟩, .message (Wire.utf8 "hello\nquit\n"), Wire.utf8 "hello\n", none⟩] ++
        [⟨⟨2⟩, .closed, [], none⟩] := by
    decide +kernel
  have hdone : Done (hurried.calls ⟨2⟩) := by
    rw [hcalls]
    exact .intro (.intro rfl (by simp [Callback.Midway])) rfl
  have htraffic : hurried.2.2.of ⟨2⟩ = [.ended] := by decide +kernel
  have hwritten : written (hurried.calls ⟨2⟩) = Wire.utf8 "hello\n" := by decide +kernel
  refine ⟨played_greeted.next _, hdone, hwritten, htraffic, by decide +kernel, fun hall => ?_⟩
  have hfailed := hall ⟨2⟩ hdone
  rw [htraffic, hwritten] at hfailed
  exact absurd (hfailed (by decide +kernel)) (by decide)

end Supervisor.Worker
