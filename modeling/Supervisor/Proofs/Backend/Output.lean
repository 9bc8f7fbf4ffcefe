import Mathlib.Data.List.Nodup
import Supervisor.Proofs.Backend.Fork
import Supervisor.Proofs.Backend.Pipes

/-!
# The output of started programs

The backend relays what programs write, piece by piece as it finds the time,
and it learns of their ends by looking for them.  Programs write and end at any
time, also between two calls of one turn.

* `gone` are the programs that were seen to end, and `Told` says that their
  ends were reported.
* `InOrder` is kept by everything that the backend does: by creations
  (`InOrder.create`), by stops (`InOrder.terminate`), and by turns of the
  control loop (`InOrder.loop`).
* `Run` are the runs of the backend among programs, with their histories.
* `output_relayed_in_full`: at any time of a run, a program that was reported
  was relayed in full.
-/

namespace Supervisor.Backend

open Lifecycle (Event Reaction)

variable {σ : Type}

namespace Spawn

/-! ## What is reported -/

/-- The programs with a worker of some id that were seen to end: all, but for the last one if its
worker is remembered. -/
def gone (b : Spawn) (w : Outside) (uid : WorkerId) : List Started :=
  if b.workers.contains uid then (w.bearers uid).dropLast else w.bearers uid

/-- Each program that was seen to end was reported once, with its exit code. -/
def Told (b : Spawn) (w : Outside) (reports : List Event) : Prop :=
  ∀ uid, (b.gone w uid).map (fun p => (w.life p).exit) = (reported uid reports).map some

section Reports

variable {b b' : Spawn} {w w' : Outside} {reports : List Event} {uid : WorkerId} {p : Started}

theorem gone_congr (hw : w'.bearers uid = w.bearers uid)
    (hb : b'.workers.contains uid = b.workers.contains uid) : b'.gone w' uid = b.gone w uid := by
  rw [gone, gone, hw, hb]

theorem mem_started_of_gone (h : p ∈ b.gone w uid) : p ∈ w.started ∧ p.uid = uid := by
  refine Outside.mem_bearers.mp ?_
  unfold gone at h
  split at h
  · exact (List.dropLast_sublist _).subset h
  · exact h

/-- A program that was not seen to end is the last with its id, and its worker is remembered. -/
theorem mem_gone_or_latest (hp : p ∈ w.started) :
    p ∈ b.gone w p.uid ∨ b.workers.contains p.uid = true ∧ w.latest p.uid = some p := by
  have hmem : p ∈ w.bearers p.uid := Outside.mem_bearers.mpr ⟨hp, rfl⟩
  by_cases hknown : b.workers.contains p.uid = true
  · rw [gone, if_pos hknown]
    have hne := List.ne_nil_of_mem hmem
    rw [← List.dropLast_append_getLast hne, List.mem_append, List.mem_singleton] at hmem
    refine hmem.imp_right fun hlast => ⟨hknown, ?_⟩
    rw [Outside.latest, List.getLast?_eq_some_getLast hne, ← hlast]
  · rw [gone, if_neg hknown]
    exact .inl hmem

/-- The program of a worker that is remembered was not seen to end. -/
theorem latest_ne_of_gone (hnodup : w.started.Nodup) (hp : p ∈ b.gone w uid)
    (hknown : b.workers.contains uid = true) : w.latest uid ≠ some p := by
  intro hlatest
  rw [gone, if_pos hknown] at hp
  have hlast : w.bearers uid = (w.bearers uid).dropLast ++ [p] :=
    (List.dropLast_append_getLast? p hlatest).symm
  have hbearers : ((w.bearers uid).dropLast ++ [p]).Nodup := hlast ▸ hnodup.filter _
  exact (List.nodup_append.mp hbearers).2.2 p hp p List.mem_cons_self rfl

theorem Told.exit_eq (h : b.Told w reports) (hp : p ∈ b.gone w uid) :
    ∃ code, (w.life p).exit = some code := by
  have hmem : (w.life p).exit ∈ (reported uid reports).map some :=
    h uid ▸ List.mem_map_of_mem hp
  obtain ⟨code, -, hcode⟩ := List.mem_map.mp hmem
  exact ⟨code, hcode.symm⟩

/-- Nothing is to be reported if no worker is forgotten. -/
theorem Told.onward (h : b.Told w reports) (hw : w.Onward w')
    (hb : ∀ uid, b'.workers.contains uid = b.workers.contains uid) : b'.Told w' reports := by
  intro uid
  rw [gone_congr (hw.bearers uid) (hb uid), ← h uid]
  refine List.map_congr_left fun p hp => ?_
  obtain ⟨code, hcode⟩ := h.exit_eq hp
  rw [hcode]
  exact hw.exit p (mem_started_of_gone hp).1 code hcode

/-- A worker is forgotten and its end reported. -/
theorem Told.forget (h : b.Told w reports) (hknown : b.workers.contains uid = true)
    (hp : w.latest uid = some p) {code : Option Int32} (hexit : (w.life p).exit = some code)
    (hb : ∀ uid', b'.workers.contains uid' = (b.workers.erase uid).contains uid') :
    b'.Told w (reports ++ [.workerTerminated uid code]) := by
  intro uid'
  rw [reported_append, List.map_append, ← h uid']
  by_cases huid : uid' = uid
  · subst huid
    have hforgotten : b'.workers.contains uid' = false := by
      rw [hb, Table.contains, Table.find?_erase, if_pos rfl]
      rfl
    have hlast : w.bearers uid' = (w.bearers uid').dropLast ++ [p] :=
      (List.dropLast_append_getLast? p hp).symm
    rw [gone, gone, hknown, hforgotten, if_pos rfl, if_neg Bool.false_ne_true, reported_cons_self,
      hlast, List.dropLast_concat, List.map_append, List.map_cons, hexit]
    rfl
  · have hkept : b'.workers.contains uid' = b.workers.contains uid' := by
      rw [hb, Table.contains, Table.find?_erase, if_neg huid]
      rfl
    rw [gone_congr rfl hkept, reported_cons_of_ne (Ne.symm huid)]
    simp

/-- A program that is started has not been seen to end, and nobody else is affected if its id is
free. -/
theorem gone_adopt (hfree : b.workers.contains p.uid = false) (w : Outside) (uid : WorkerId) :
    (b.adopt p).gone (w.join p) uid = b.gone w uid := by
  by_cases huid : uid = p.uid
  · subst huid
    have hknown : (b.adopt p).workers.contains p.uid = true :=
      (Table.contains_insert _ _ _ _).mpr (.inl rfl)
    rw [gone, gone, hfree, hknown, if_pos rfl, if_neg Bool.false_ne_true,
      Outside.bearers_join_self, List.dropLast_concat]
  · refine gone_congr (Outside.bearers_join_of_ne (Ne.symm huid) w) ?_
    rw [adopt, Table.contains, Table.find?_insert, if_neg huid]
    rfl

theorem Told.adopt (h : b.Told w reports) (hnew : p ∉ w.started)
    (hfree : b.workers.contains p.uid = false) :
    (b.adopt p).Told (w.join p) (reports ++ [.workerCreated p.uid]) := by
  intro uid
  have hnone : reported uid [.workerCreated p.uid] = [] := rfl
  rw [gone_adopt hfree, reported_append, hnone, List.append_nil, ← h uid]
  refine List.map_congr_left fun q hq => ?_
  rw [Outside.life_join_of_mem hnew (mem_started_of_gone hq).1]

end Reports

/-! ## Turns -/

/-- What a run has come to. -/
structure History where
  /-- What was emitted, in order, but for answers to stops. -/
  reports : List Event := []
  /-- The programs that were stopped hard. -/
  struck : List Started := []

/-- The order in which things are between any two reactions. -/
structure InOrder (b : Spawn) (w : Outside) (h : History) : Prop where
  sound : b.Sound w h.struck []
  told : b.Told w h.reports

section Turns

variable {calls : ProgramCalls σ} {view : σ → Outside} {b : Spawn} {s : σ} {w w' : Outside}
  {reports : List Event} {struck : List Started}

theorem InOrder.later (h : b.InOrder w ⟨reports, struck⟩) (hw : w.Later w') :
    b.InOrder w' ⟨reports, struck⟩ :=
  ⟨h.sound.later hw, h.told.onward hw.onward fun _ => rfl⟩

/-- Burying workers whose programs have ended reports them, and forgets them. -/
theorem InOrder.buryAll (hcalls : calls.Faithful view) {ends : List (WorkerId × Option Int32)}
    (h : b.InOrder (view s) ⟨reports, struck⟩) (hnodup : (ends.map Prod.fst).Nodup)
    (hends : ∀ uid code, (uid, code) ∈ ends → b.workers.contains uid = true ∧
      ∃ p, (view s).latest uid = some p ∧ ((view s).life p).exit = some code) :
    (Spawn.buryAll calls ends b s).2.1.InOrder (view (Spawn.buryAll calls ends b s).2.2)
        ⟨reports ++ (Spawn.buryAll calls ends b s).1, struck⟩ ∧
      (view s).Onward (view (Spawn.buryAll calls ends b s).2.2) ∧
      ∀ uid, (Spawn.buryAll calls ends b s).2.1.workers.contains uid = true →
        b.workers.contains uid = true ∧ uid ∉ ends.map Prod.fst := by
  induction ends generalizing b s reports with
  | nil =>
    refine ⟨?_, .refl _, fun uid hknown => ⟨hknown, List.not_mem_nil⟩⟩
    rw [Spawn.buryAll, List.append_nil]
    exact h
  | cons x rest ih =>
    obtain ⟨uid, code⟩ := x
    obtain ⟨hfirst, hrest⟩ := List.nodup_cons.mp hnodup
    obtain ⟨hknown, p, hp, hexit⟩ := hends uid code List.mem_cons_self
    obtain ⟨hsound, honward, hcontains⟩ := h.sound.bury hcalls hknown hp (by simp [hexit])
    have hburied : (b.bury calls uid s).1.InOrder (view (b.bury calls uid s).2)
        ⟨reports ++ [.workerTerminated uid code], struck⟩ :=
      ⟨hsound, (h.told.forget hknown hp hexit hcontains).onward honward fun _ => rfl⟩
    obtain ⟨hrests, honward', hleft⟩ := ih hburied hrest fun uid' code' hmem => by
      obtain ⟨hknown', q, hq, hexit'⟩ := hends uid' code' (List.mem_cons_of_mem _ hmem)
      have hne : uid' ≠ uid := fun heq => hfirst (List.mem_map.mpr ⟨_, hmem, heq⟩)
      refine ⟨(hcontains _).trans ((Table.contains_erase _ _ _).mpr ⟨hne, hknown'⟩), q, ?_, ?_⟩
      · rw [honward.latest, hq]
      · exact honward.exit q (Outside.mem_of_latest hq).1 _ hexit'
    rw [List.append_assoc] at hrests
    refine ⟨hrests, honward.trans honward', fun uid' hknown' => ?_⟩
    obtain ⟨hbefore, hnotin⟩ := hleft uid' hknown'
    obtain ⟨hne, hbefore⟩ := (Table.contains_erase _ _ _).mp ((hcontains _).symm.trans hbefore)
    exact ⟨hbefore, fun hmem => (List.mem_cons.mp hmem).elim hne hnotin⟩

/-- The workers that a turn finds to have ended. -/
def ends (calls : ProgramCalls σ) (b : Spawn) (s : σ) : List (WorkerId × Option Int32) :=
  b.workers.keys.filterMap fun uid => (calls.ended? uid s).map (uid, ·)

theorem mem_ends {uid : WorkerId} {code : Option Int32} :
    (uid, code) ∈ ends calls b s ↔
      b.workers.contains uid = true ∧ calls.ended? uid s = some code := by
  rw [ends, List.mem_filterMap, Table.contains_iff]
  constructor
  · rintro ⟨uid', hmem, heq⟩
    obtain ⟨code', hcode, heq⟩ := Option.map_eq_some_iff.mp heq
    cases heq
    exact ⟨hmem, hcode⟩
  · rintro ⟨hmem, hcode⟩
    exact ⟨uid, hmem, by rw [hcode]; rfl⟩

theorem nodup_ends (calls : ProgramCalls σ) (b : Spawn) (s : σ) :
    ((ends calls b s).map Prod.fst).Nodup := by
  rw [ends, List.map_filterMap]
  refine List.Nodup.filterMap (fun uid uid' x hx hx' => ?_) b.workers.nodup_keys
  simp only [Option.mem_def, Option.map_map, Option.map_eq_some_iff] at hx hx'
  obtain ⟨_, _, rfl⟩ := hx
  obtain ⟨_, _, heq⟩ := hx'
  exact heq.symm

/-- A turn of the control loop reports what it finds to have ended. -/
theorem InOrder.loop (hcalls : calls.Faithful view) (h : b.InOrder (view s) ⟨reports, struck⟩) :
    (Spawn.loop calls b s).2.1.InOrder (view (Spawn.loop calls b s).2.2)
        ⟨reports ++ (Spawn.loop calls b s).1.emitted, struck⟩ ∧
      ((∃ failure,
          (calls.host.poll b.pipes.pruneClosed.pollEntries (some .zero) s).1 = .failed failure) ∨
        (Spawn.loop calls b s).1.failure = none ∧
          ∀ p ∈ (view s).started, ((view s).life p).exit ≠ none →
            p ∈ (Spawn.loop calls b s).2.1.gone (view (Spawn.loop calls b s).2.2) p.uid) := by
  obtain ⟨hsound, hkeeps⟩ := h.sound.relayOutput hcalls
  have hrelayed := h.told.onward hkeeps.onward hkeeps.contains
  unfold Spawn.loop
  split
  · rename_i e b' s' heq
    rw [heq] at hsound hrelayed
    refine ⟨?_, .inl (failed_of_relayOutput (congrArg Prod.fst heq))⟩
    rw [List.append_nil]
    exact ⟨hsound, hrelayed⟩
  · rename_i b' s' heq
    rw [heq] at hsound hrelayed hkeeps
    have hends : ∀ uid code, (uid, code) ∈ ends calls b' s' → b'.workers.contains uid = true ∧
        ∃ p, (view s').latest uid = some p ∧ ((view s').life p).exit = some code := by
      intro uid code hmem
      obtain ⟨hknown, hcode⟩ := mem_ends.mp hmem
      obtain ⟨ids, hids⟩ := Option.isSome_iff_exists.mp hknown
      obtain ⟨p, hp, -⟩ := hsound.wired.record hids
      exact ⟨hknown, p, hp, (hcalls.ended hp).symm.trans hcode⟩
    obtain ⟨hburied, honward, hleft⟩ :=
      InOrder.buryAll hcalls ⟨hsound, hrelayed⟩ (nodup_ends calls b' s') hends
    refine ⟨hburied, .inr ⟨rfl, fun p hp hexit => ?_⟩⟩
    have hexit' := hkeeps.onward.exit_ne_none hp hexit
    have hp' : p ∈ (view s').started := hkeeps.onward.started ▸ hp
    refine (mem_gone_or_latest (honward.started ▸ hp')).resolve_right ?_
    rintro ⟨hknown, hlatest⟩
    obtain ⟨hknown', hnotin⟩ := hleft p.uid hknown
    obtain ⟨code, hcode⟩ := Option.ne_none_iff_exists'.mp hexit'
    refine hnotin (List.mem_map.mpr ⟨(p.uid, code), mem_ends.mpr ⟨hknown', ?_⟩, rfl⟩)
    exact (hcalls.ended ((honward.latest p.uid).symm.trans hlatest)).trans hcode

/-- A creation fails only if the program cannot be started. -/
theorem create_of_started {settings : Worker.Settings} {p : Started} {s' : σ}
    (h : calls.start settings.toVariables s = (.ok p, s')) :
    create calls settings b s = ({ emitted := [.workerCreated p.uid] }, b.adopt p, s') := by
  rw [create, h]
  rfl

theorem create_of_refused {settings : Worker.Settings} {failure : Failure} {s' : σ}
    (h : calls.start settings.toVariables s = (.error failure, s')) :
    create calls settings b s =
      ({ failure := some (.spawn failure "failed to spawn worker process") }, b, s') := by
  rw [create, h]

/-- A program starts with nothing written, and nothing is reported of it. -/
theorem InOrder.create (hcalls : calls.Faithful view) (h : b.InOrder (view s) ⟨reports, struck⟩)
    {settings : Worker.Settings}
    (hfree : ∀ p, (calls.start settings.toVariables s).1 = .ok p →
      b.workers.contains p.uid = false) :
    (Spawn.create calls settings b s).2.1.InOrder (view (Spawn.create calls settings b s).2.2)
      ⟨reports ++ (Spawn.create calls settings b s).1.emitted, struck⟩ := by
  cases hstart : calls.start settings.toVariables s with
  | mk outcome s' =>
    cases outcome with
    | error failure =>
      rw [create_of_refused hstart, List.append_nil]
      exact h.later (hcalls.refused hstart)
    | ok p =>
      obtain ⟨hdiff, hnew, hlater⟩ := hcalls.start hstart
      have hunknown : p ∉ (view s).started := fun hp => hnew p hp .output .output rfl
      have hnone := hfree p (congrArg Prod.fst hstart)
      rw [create_of_started hstart]
      exact .later ⟨h.sound.adopt hdiff hnew hnone, h.told.adopt hunknown hnone⟩ hlater

/-- The programs that an event stops hard. -/
def struckBy (b : Spawn) (w : Outside) : Event → List Started
  | .workerTerminate uid true => if b.workers.contains uid then (w.latest uid).toList else []
  | _ => []

/-- A stop tells nothing about a worker that is remembered. -/
theorem emitted_terminate {uid : WorkerId} (h : b.workers.contains uid = true)
    (calls : ProgramCalls σ) (hard : Bool) (s : σ) :
    (terminate calls uid hard b s).1.emitted = [] := by
  obtain ⟨ids, hids⟩ := Option.isSome_iff_exists.mp h
  cases hard <;> simp [terminate, hids]

/-- Only a hard stop takes something away, from the program that it stops. -/
theorem InOrder.terminate (hcalls : calls.Faithful view)
    (h : b.InOrder (view s) ⟨reports, struck⟩) (uid : WorkerId) (hard : Bool) :
    (Spawn.terminate calls uid hard b s).2.1.InOrder
      (view (Spawn.terminate calls uid hard b s).2.2)
      ⟨reports, struckBy b (view s) (.workerTerminate uid hard) ++ struck⟩ := by
  cases hids : b.workers.find? uid with
  | none =>
    have hstruck : struckBy b (view s) (.workerTerminate uid hard) = [] := by
      cases hard <;> simp [struckBy, Table.contains, hids]
    rw [hstruck, Spawn.terminate, hids]
    exact h
  | some ids =>
    rw [Spawn.terminate, hids]
    cases hard with
    | false => exact h.later (hcalls.signal uid .interrupt s)
    | true =>
      obtain ⟨p, hp, -⟩ := h.sound.wired.record hids
      have hstruck : struckBy b (view s) (.workerTerminate uid true) = [p] := by
        simp [struckBy, Table.contains, hids, hp]
      have hknown : ∀ uid', (b.workers.insert uid []).contains uid' = b.workers.contains uid' := by
        intro uid'
        rw [Table.contains, Table.contains, Table.find?_insert]
        split
        · rename_i huid
          rw [huid, hids]
          rfl
        · rfl
      have hloose :
          Sound { b with workers := b.workers.insert uid [] } (view s) (p :: struck) ids :=
        (h.sound.loosen hids (fun uid' hne => by rw [Table.find?_insert, if_neg hne])
          (fun ids' hids' => by simpa [Table.find?_insert] using hids'.symm)).mono
            (List.subset_cons_self p struck)
      obtain ⟨hclosed, hkeeps⟩ := hloose.closePipes hcalls fun q hq c hmem =>
        h.sound.wired.owner hids hp hq hmem ▸ List.mem_cons_self
      have htold := h.told.onward hkeeps.onward fun uid' =>
        (hkeeps.contains uid').trans (hknown uid')
      rw [hstruck]
      exact InOrder.later ⟨hclosed, htold⟩ (hcalls.signal uid .kill _)

/-! ## Runs -/

/-- What a reaction reports.  The answer to a stop is not a report: all that it can say is that
there is no such worker (`emitted_terminate`). -/
def told : Event → Reaction → List Event
  | .workerTerminate .., _ => []
  | _, r => r.emitted

/-- What a run has come to after a reaction. -/
def History.next (h : History) (b : Spawn) (w : Outside) (e : Event) (r : Reaction) : History :=
  ⟨h.reports ++ told e r, struckBy b w e ++ h.struck⟩

/-- If an event starts a program, its pid is free: a pid is given out again only after its process
was seen to end. -/
def Free (calls : ProgramCalls σ) (e : Event) (b : Spawn) (s : σ) : Prop :=
  ∀ settings p, e = .workerCreate settings →
    (calls.start settings.toVariables s).1 = .ok p → b.workers.contains p.uid = false

theorem InOrder.react (hcalls : calls.Faithful view) {h : History} (hin : b.InOrder (view s) h)
    {e : Event} (hfree : Free calls e b s) :
    (Spawn.react calls e (b, s)).2.1.InOrder (view (Spawn.react calls e (b, s)).2.2)
      (h.next b (view s) e (Spawn.react calls e (b, s)).1) := by
  obtain ⟨reports, struck⟩ := h
  cases e with
  | workerCreate settings => exact hin.create hcalls fun p => hfree settings p rfl
  | workerTerminate uid hard =>
    rw [History.next, Spawn.told, List.append_nil]
    exact hin.terminate hcalls uid hard
  | schedulerLoop => exact (hin.loop hcalls).1
  | _ =>
    show b.InOrder (view s) ⟨reports ++ [], struck⟩
    rw [List.append_nil]
    exact hin

/-- What the backend and the programs can do from the beginning, with the history of it. -/
inductive Run (calls : ProgramCalls σ) (view : σ → Outside) : History → Spawn → σ → Prop where
  | begin {s : σ} (hstarted : (view s).started = []) (hsink : ∀ c, (view s).sink c = []) :
    Run calls view {} .empty s
  | pass {h : History} {b : Spawn} {s s' : σ} (run : Run calls view h b s)
    (hlater : (view s).Later (view s')) : Run calls view h b s'
  | react {h : History} {b : Spawn} {s : σ} (e : Event) (run : Run calls view h b s)
    (hfree : Free calls e b s) :
    Run calls view (h.next b (view s) e (Spawn.react calls e (b, s)).1)
      (Spawn.react calls e (b, s)).2.1 (Spawn.react calls e (b, s)).2.2

/-- Nothing has happened at the beginning. -/
theorem inOrder_empty (hstarted : w.started = []) (hsink : ∀ c, w.sink c = []) :
    empty.InOrder w {} where
  sound := {
    wired := {
      nodup := by simp [hstarted]
      own := by simp [hstarted]
      key := nofun
      held := nofun
      record := nofun }
    relayed := by
      refine ⟨[], hsink, ?_, ?_, ?_, ?_⟩ <;> simp [hstarted] }
  told uid := by simp [gone, Outside.bearers, hstarted]

theorem Run.inOrder (hcalls : calls.Faithful view) {h : History}
    (run : Run calls view h b s) : b.InOrder (view s) h := by
  induction run with
  | begin hstarted hsink => exact inOrder_empty hstarted hsink
  | pass _ hlater ih => exact ih.later hlater
  | react _ _ hfree ih => exact ih.react hcalls hfree

/-- The pipes of a program that was seen to end are not watched any more. -/
theorem Wired.unwatched (h : b.Wired w []) {uid : WorkerId} {p : Started}
    (hp : p ∈ b.gone w uid) (c : Channel) : b.pipes.keys.contains (p.pipe c) = false := by
  rw [Bool.eq_false_iff]
  intro hwatched
  obtain ⟨hstarted, rfl⟩ := mem_started_of_gone hp
  obtain ⟨uid, ids, hids, hmem⟩ := (h.held hwatched).resolve_left List.not_mem_nil
  obtain ⟨q, hq, -⟩ := h.record hids
  obtain rfl := h.owner hids hq hstarted hmem
  obtain rfl := (Outside.mem_of_latest hq).2
  exact latest_ne_of_gone h.nodup hp (Option.isSome_iff_exists.mpr ⟨ids, hids⟩) hq

/-- However programs and the backend take turns, what was relayed to an output is put together from
pieces that programs wrote, each in order and once.  A program is reported once, with its exit
code, by the first turn of the control loop that finds it to have ended and whose poll of the pipes
does not fail.  From then on neither a record nor a pipe of it is left, and it was relayed in full unless it
was stopped hard. -/
theorem output_relayed_in_full (hcalls : calls.Faithful view) {h : History}
    (run : Run calls view h b s) :
    (∃ pieces : List Piece,
      (∀ c, (view s).sink c = poured c pieces) ∧
      (∀ x ∈ pieces, x.source ∈ (view s).started) ∧
      (∀ p ∈ (view s).started, ∀ c, share p c pieces <+: ((view s).life p).written c) ∧
      ∀ uid, ∀ p ∈ b.gone (view s) uid, p ∉ h.struck →
        ∀ c, share p c pieces = ((view s).life p).written c) ∧
    (∀ uid, (b.gone (view s) uid).map (fun p => ((view s).life p).exit) =
      (reported uid h.reports).map some) ∧
    (∀ uid, ∀ p ∈ b.gone (view s) uid,
      (b.workers.contains uid = true → (view s).latest uid ≠ some p) ∧
      ∀ c, b.pipes.keys.contains (p.pipe c) = false) ∧
    (∀ uid hard, b.workers.contains uid = true → (terminate calls uid hard b s).1.emitted = []) ∧
    ((∃ failure,
        (calls.host.poll b.pipes.pruneClosed.pollEntries (some .zero) s).1 = .failed failure) ∨
      (loop calls b s).1.failure = none ∧
        ∀ p ∈ (view s).started, ((view s).life p).exit ≠ none →
          p ∈ (loop calls b s).2.1.gone (view (loop calls b s).2.2) p.uid) := by
  have hin := run.inOrder hcalls
  have hwired := hin.sound.wired
  obtain ⟨pieces, hpieces⟩ := hin.sound.relayed
  refine ⟨⟨pieces, hpieces.sink, hpieces.source, fun p hp c => ?_, fun uid p hp hspared c => ?_⟩,
    hin.told, fun uid p hp => ⟨latest_ne_of_gone hwired.nodup hp, hwired.unwatched hp⟩,
    fun uid hard hknown => emitted_terminate hknown calls hard s, (hin.loop hcalls).2⟩
  · rw [hpieces.share p hp c]
    exact hpieces.read p hp c
  · have hp' := (mem_started_of_gone hp).1
    have hdrained := (hpieces.drained p hp' hspared c).resolve_left
      (Bool.eq_false_iff.mp (hwired.unwatched hp c))
    exact (hpieces.share p hp' c).trans hdrained.1

/-- Two programs write at the same time.  The second closes its output and goes on.  The first
writes before and during a relay, and again when its pipe has just been drained, before it exits.
The turn that finds the exit has then relayed all of it. -/
theorem output_relayed_in_full_at_exit :
    let p : Started := ⟨100, ⟨10⟩, ⟨11⟩⟩
    let q : Started := ⟨101, ⟨12⟩, ⟨13⟩⟩
    ∃ h b s, Run Scripted.calls Scripted.outside h b s ∧ reported p.uid h.reports = [some 3] ∧
      b.workers.keys = [q.uid] ∧ b.pipes.keys.keys = [q.errors] ∧
      s.outside.sink .output = [97, 99, 100, 103] ∧ s.outside.sink .errors = [98, 101, 102] ∧
      ∃ pieces, (∀ c, s.outside.sink c = poured c pieces) ∧
        share p .output pieces = [97, 99, 100, 103] ∧ share p .errors pieces = [102] ∧
        share q .errors pieces <+: [98, 101] := by
  intro p q
  have hbegin : Run Scripted.calls Scripted.outside {} .empty
      { outside := ⟨[], fun _ => {}, fun _ => []⟩
        nodup_pipes := .nil
        script :=
          -- the creations
          [[], [(p, .writes .output [97]), (q, .writes .errors [98])],
            -- the poll, and the first drain
            [(p, .writes .output [99]), (q, .hangsUp .output)], [(p, .writes .output [100])],
            [(q, .writes .errors [101])],
            -- an output that has ended
            [], [], [(p, .writes .errors [102])],
            -- the last drain before the exit is looked for
            [], [(p, .writes .output [103]), (p, .exits (some 3))]]
        launches := [p, q] } := .begin rfl fun _ => rfl
  have hfirst := hbegin.react (.workerCreate ⟨"echo", .loopback, 0, .ofMillis 10⟩)
    fun _ _ _ _ => rfl
  have hsecond := hfirst.react (.workerCreate ⟨"echo", .loopback, 0, .ofMillis 10⟩)
    fun settings p' _ hstart => by
      have hstarted : some q = some p' := congrArg Except.toOption hstart
      obtain rfl := Option.some.inj hstarted
      decide +kernel
  have hturn := hsecond.react .schedulerLoop fun _ _ he => nomatch he
  obtain ⟨pieces, hsink, -, hshare, hfull⟩ :=
    (output_relayed_in_full Scripted.faithful hturn).1
  refine ⟨_, _, _, hturn, by decide +kernel, by decide +kernel, by decide +kernel,
    by decide +kernel, by decide +kernel, pieces, hsink, ?_, ?_, ?_⟩
  · exact (hfull p.uid p (by decide +kernel) (by decide +kernel) .output).trans (by decide +kernel)
  · exact (hfull p.uid p (by decide +kernel) (by decide +kernel) .errors).trans (by decide +kernel)
  · exact (hshare q (by decide +kernel) .errors).trans (by decide +kernel)

end Turns

end Spawn

end Supervisor.Backend
