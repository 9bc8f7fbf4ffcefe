import Supervisor.Proofs.Backend.Lives
import Supervisor.Proofs.Poll.Selector

/-!
# The pipes of started programs

What the backend relays is made of pieces, each of which was read from one pipe
at one time.

* `Wired` says which pipes are watched and what the records of workers hold,
  and `Relayed` says that all that was read was relayed.  `Sound` is both.
* `Sound.drainPipe`: a drain keeps it, whatever programs do in the meantime, and
  if the program had ended then nothing is left in its pipe.
* `Sound.relayOutput`, `Sound.bury`: so do the relay of a turn, and the last
  relay of a worker whose program has ended, after which nothing of the worker
  is left.
* `Sound.adopt`, `Sound.closePipes`: so do a start, and a hard stop, which takes
  away what was not read.
-/

namespace Supervisor.Backend

open Poll (Selector)
open Wire (Bytes ReadEvent)

variable {σ : Type}

/-! ## Pieces of output -/

/-- What was relayed at one time. -/
structure Piece where
  source : Started
  channel : Channel
  bytes : Bytes

/-- All that was relayed to an output. -/
def poured (c : Channel) (pieces : List Piece) : Bytes :=
  (pieces.filter fun x => x.channel = c).flatMap Piece.bytes

/-- What was relayed to an output from one program, without what came from others in between. -/
def share (p : Started) (c : Channel) (pieces : List Piece) : Bytes :=
  (pieces.filter fun x => x.source = p ∧ x.channel = c).flatMap Piece.bytes

section Pieces

variable {pieces : List Piece} {x : Piece} {p : Started} {c : Channel}

theorem poured_concat_self (pieces : List Piece) (x : Piece) :
    poured x.channel (pieces ++ [x]) = poured x.channel pieces ++ x.bytes := by
  simp [poured]

theorem poured_concat_of_ne (h : x.channel ≠ c) (pieces : List Piece) :
    poured c (pieces ++ [x]) = poured c pieces := by
  simp [poured, h]

theorem share_concat_self (pieces : List Piece) (x : Piece) :
    share x.source x.channel (pieces ++ [x]) = share x.source x.channel pieces ++ x.bytes := by
  simp [share]

theorem share_concat_of_ne (h : ¬ (x.source = p ∧ x.channel = c)) (pieces : List Piece) :
    share p c (pieces ++ [x]) = share p c pieces := by
  simp [share, h]

/-- Nothing came from a program that no piece came from. -/
theorem share_eq_nil (h : ∀ x ∈ pieces, x.source ≠ p) (c : Channel) : share p c pieces = [] := by
  have hnone : (pieces.filter fun x => x.source = p ∧ x.channel = c) = [] := by
    rw [List.filter_eq_nil_iff]
    intro x hx
    simp [h x hx]
  rw [share, hnone, List.flatMap_nil]

end Pieces

namespace Spawn

/-! ## Pipes and records -/

/-- Every pipe that is watched is an open pipe of a started program, and is attached to the
program's worker.  It is in the record of a worker unless it is `loose`.  A record holds pipes of
the program that its worker stands for. -/
structure Wired (b : Spawn) (w : Outside) (loose : List StreamId) : Prop where
  nodup : w.started.Nodup
  own : ∀ p ∈ w.started, ∀ q ∈ w.started, ∀ c c', p.pipe c = q.pipe c' → p = q ∧ c = c'
  key : ∀ {id key}, b.pipes.keys.find? id = some key → key.stream = { id, kind := .pipe } ∧
    ∃ p ∈ w.started, ∃ c, p.pipe c = id ∧ key.attachment = some ⟨p.uid, c⟩
  held : ∀ {id}, b.pipes.keys.contains id = true →
    id ∈ loose ∨ ∃ uid ids, b.workers.find? uid = some ids ∧ id ∈ ids
  record : ∀ {uid ids}, b.workers.find? uid = some ids →
    ∃ p, w.latest uid = some p ∧ ∀ id ∈ ids, ∃ c, p.pipe c = id

/-- What was read was relayed, piece by piece.  Nothing is left to read in a pipe that is not
watched any more, unless the program was stopped hard. -/
structure Relayed (pipes : Selector Relay) (w : Outside) (struck : List Started)
    (pieces : List Piece) : Prop where
  sink : ∀ c, w.sink c = poured c pieces
  source : ∀ x ∈ pieces, x.source ∈ w.started
  share : ∀ p ∈ w.started, ∀ c, share p c pieces = (w.life p).read c
  read : ∀ p ∈ w.started, ∀ c, (w.life p).read c <+: (w.life p).written c
  drained : ∀ p ∈ w.started, p ∉ struck → ∀ c,
    pipes.keys.contains (p.pipe c) = true ∨ (w.life p).Drained c

/-- The order in which things are kept between any two calls. -/
structure Sound (b : Spawn) (w : Outside) (struck : List Started) (loose : List StreamId) :
    Prop where
  wired : b.Wired w loose
  relayed : ∃ pieces, Relayed b.pipes w struck pieces

section Invariant

variable {b b' : Spawn} {w w' : Outside} {struck : List Started} {loose loose' : List StreamId}
  {pieces : List Piece} {id : StreamId}

theorem Wired.onward (h : b.Wired w loose) (hw : w.Onward w') : b.Wired w' loose where
  nodup := by
    rw [hw.started]
    exact h.nodup
  own := by
    rw [hw.started]
    exact h.own
  key hkey := by
    rw [hw.started]
    exact h.key hkey
  held := h.held
  record hids := by
    rw [hw.latest]
    exact h.record hids

theorem Relayed.later {pipes : Selector Relay} (h : Relayed pipes w struck pieces)
    (hw : w.Later w') : Relayed pipes w' struck pieces where
  sink c := (congrFun hw.sink c).trans (h.sink c)
  source x hx := hw.started ▸ h.source x hx
  share p hp c := by
    rw [hw.started] at hp
    rw [(hw.life p hp).read]
    exact h.share p hp c
  read p hp c := by
    rw [hw.started] at hp
    rw [(hw.life p hp).read]
    exact (h.read p hp c).trans ((hw.life p hp).written c)
  drained p hp hspared c := by
    rw [hw.started] at hp
    exact (h.drained p hp hspared c).imp_right (hw.life p hp).drained

/-- All that is in a pipe is read and relayed. -/
theorem Relayed.transfer {pipes : Selector Relay} (h : Relayed pipes w struck pieces) {p : Started}
    (hp : p ∈ w.started) (c : Channel) :
    Relayed pipes ((w.take p c).put c ((w.life p).unread c)) struck
      (pieces ++ [⟨p, c, (w.life p).unread c⟩]) where
  sink c' := by
    by_cases hc : c = c'
    · subst hc
      rw [Outside.sink_put_self]
      exact (congrArg (· ++ _) (h.sink c)).trans (poured_concat_self pieces ⟨p, c, _⟩).symm
    · rw [Outside.sink_put_of_ne (Ne.symm hc), poured_concat_of_ne hc]
      exact h.sink c'
  source x hx := by
    rcases List.mem_append.mp hx with hx | hx
    · exact h.source x hx
    · rw [List.mem_singleton.mp hx]
      exact hp
  share q hq c' := by
    show _ = ((w.take p c).life q).read c'
    by_cases hpipe : q = p ∧ c' = c
    · obtain ⟨rfl, rfl⟩ := hpipe
      have hwhole : (w.life q).read c' ++ (w.life q).unread c' = (w.life q).written c' :=
        List.prefix_iff_eq_append.mp (h.read q hp c')
      rw [Outside.read_take_self, ← hwhole, ← h.share q hq c']
      exact share_concat_self pieces ⟨q, c', _⟩
    · rw [Outside.read_take_of_ne _ _ _ hpipe, ← h.share q hq c']
      exact share_concat_of_ne (fun heq => hpipe ⟨heq.1.symm, heq.2.symm⟩) pieces
  read q hq c' := by
    show ((w.take p c).life q).read c' <+: ((w.take p c).life q).written c'
    rw [Outside.written_take]
    by_cases hpipe : q = p ∧ c' = c
    · obtain ⟨rfl, rfl⟩ := hpipe
      exact (Outside.read_take_self w q c').symm ▸ List.prefix_refl _
    · rw [Outside.read_take_of_ne _ _ _ hpipe]
      exact h.read q hq c'
  drained q hq hspared c' :=
    (h.drained q hq hspared c').imp_right fun hdrained => Outside.drained_take hdrained p c

theorem Sound.later (h : b.Sound w struck loose) (hw : w.Later w') : b.Sound w' struck loose where
  wired := h.wired.onward hw.onward
  relayed := h.relayed.imp fun _ hpieces => hpieces.later hw

/-- Nothing is promised of more programs. -/
theorem Sound.mono (h : b.Sound w struck loose) {struck' : List Started} (hsub : struck ⊆ struck') :
    b.Sound w struck' loose := by
  obtain ⟨pieces, hpieces⟩ := h.relayed
  exact ⟨h.wired, pieces, hpieces.sink, hpieces.source, hpieces.share, hpieces.read,
    fun p hp hspared => hpieces.drained p hp fun hmem => hspared (hsub hmem)⟩

/-- A pipe that is watched may be closed if nothing is left in it. -/
theorem Sound.remove (h : b.Sound w struck loose)
    (hid : ∀ p ∈ w.started, p ∉ struck → ∀ c, p.pipe c = id → (w.life p).Drained c)
    (hloose : ∀ x ∈ loose, x ≠ id → x ∈ loose') :
    Sound { b with pipes := b.pipes.remove id } w struck loose' where
  wired := {
    nodup := h.wired.nodup
    own := h.wired.own
    key hkey := by
      rw [Selector.find?_remove] at hkey
      split at hkey
      · cases hkey
      · exact h.wired.key hkey
    held {x} hx := by
      obtain ⟨hne, hx⟩ := (Table.contains_erase _ _ _).mp hx
      exact (h.wired.held hx).imp_left fun hmem => hloose x hmem hne
    record := h.wired.record }
  relayed := by
    obtain ⟨pieces, hpieces⟩ := h.relayed
    refine ⟨pieces, hpieces.sink, hpieces.source, hpieces.share, hpieces.read, ?_⟩
    intro p hp hspared c
    by_cases hpipe : p.pipe c = id
    · exact .inr (hid p hp hspared c hpipe)
    · refine (hpieces.drained p hp hspared c).imp_left fun hwatched => ?_
      exact (Table.contains_erase _ _ _).mpr ⟨hpipe, hwatched⟩

/-- A record may forget a pipe that is not watched. -/
theorem Sound.release (h : b.Sound w struck loose) (hid : b.pipes.keys.find? id = none)
    (uid : WorkerId) :
    Sound { b with workers := b.workers.modify uid (·.filter (· ≠ id)) } w struck loose where
  wired := {
    nodup := h.wired.nodup
    own := h.wired.own
    key := h.wired.key
    held {x} hx := by
      refine (h.wired.held hx).imp_right ?_
      rintro ⟨uid', ids, hids, hmem⟩
      have hne : x ≠ id := by
        rintro rfl
        rw [Table.contains, hid] at hx
        cases hx
      by_cases huid : uid' = uid
      · refine ⟨uid', ids.filter (· ≠ id), ?_, List.mem_filter.mpr ⟨hmem, decide_eq_true hne⟩⟩
        rw [Table.find?_modify, if_pos huid, hids]
        rfl
      · exact ⟨uid', ids, by rw [Table.find?_modify, if_neg huid, hids], hmem⟩
    record {uid' ids'} hids' := by
      rw [Table.find?_modify] at hids'
      split at hids'
      · obtain ⟨ids, hids, rfl⟩ := Option.map_eq_some_iff.mp hids'
        obtain ⟨p, hp, hpipes⟩ := h.wired.record hids
        exact ⟨p, hp, fun x hx => hpipes x (List.mem_filter.mp hx).1⟩
      · exact h.wired.record hids' }
  relayed := h.relayed

/-- A record may be dropped or emptied.  Then its pipes are loose. -/
theorem Sound.loosen (h : b.Sound w struck []) {uid : WorkerId} {ids : List StreamId}
    (hids : b.workers.find? uid = some ids) {workers : Table .worker (List StreamId)}
    (hother : ∀ uid', uid' ≠ uid → workers.find? uid' = b.workers.find? uid')
    (hown : ∀ ids', workers.find? uid = some ids' → ids' = []) :
    Sound { b with workers } w struck ids where
  wired := {
    nodup := h.wired.nodup
    own := h.wired.own
    key := h.wired.key
    held {id} hid := by
      obtain ⟨uid', ids', hids', hmem⟩ := (h.wired.held hid).resolve_left List.not_mem_nil
      by_cases huid : uid' = uid
      · subst huid
        rw [hids] at hids'
        exact .inl (Option.some.inj hids' ▸ hmem)
      · exact .inr ⟨uid', ids', (hother uid' huid).trans hids', hmem⟩
    record {uid' ids'} hids' := by
      by_cases huid : uid' = uid
      · subst huid
        obtain ⟨p, hp, -⟩ := h.wired.record hids
        exact ⟨p, hp, by simp [hown ids' hids']⟩
      · exact h.wired.record ((hother uid' huid).symm.trans hids') }
  relayed := h.relayed

/-- Who the pipes in a record belong to. -/
theorem Wired.owner (h : b.Wired w loose) {uid : WorkerId} {ids : List StreamId}
    (hids : b.workers.find? uid = some ids) {p q : Started} (hp : w.latest uid = some p)
    (hq : q ∈ w.started) {c : Channel} (hmem : q.pipe c ∈ ids) : q = p := by
  obtain ⟨p', hp', hpipes⟩ := h.record hids
  obtain rfl : p = p' := Option.some.inj (hp.symm.trans hp')
  obtain ⟨c', hpipe⟩ := hpipes _ hmem
  exact (h.own q hq p (Outside.mem_of_latest hp).1 c c' hpipe.symm).1

/-- A key may change in everything but its stream and its attachment. -/
theorem Sound.refit (h : b.Sound w struck loose) {pipes : Selector Relay}
    (hsame : ∀ id, (pipes.keys.find? id).map Selector.fixture =
      (b.pipes.keys.find? id).map Selector.fixture) :
    Sound { b with pipes } w struck loose := by
  have hcontains : ∀ id, pipes.keys.contains id = b.pipes.keys.contains id := fun id => by
    rw [Table.contains, Table.contains, ← Option.isSome_map (f := Selector.fixture), hsame,
      Option.isSome_map]
  obtain ⟨pieces, hpieces⟩ := h.relayed
  refine ⟨⟨h.wired.nodup, h.wired.own, fun {id key} hkey => ?_, fun hid => ?_, h.wired.record⟩,
    pieces, hpieces.sink, hpieces.source, hpieces.share, hpieces.read, fun p hp hspared c => ?_⟩
  · have hfixture := hsame id
    rw [hkey] at hfixture
    obtain ⟨key', hkey', heq⟩ := Option.map_eq_some_iff.mp hfixture.symm
    obtain ⟨hstream, hattachment⟩ := Prod.mk.inj heq
    rw [← hstream, ← hattachment]
    exact h.wired.key hkey'
  · rw [hcontains] at hid
    exact h.wired.held hid
  · rw [hcontains]
    exact hpieces.drained p hp hspared c

end Invariant

/-! ## New pipes -/

section Adoption

variable {b : Spawn} {w : Outside} {struck : List Started} {p : Started}

/-- How the pipe of an output is watched. -/
def watched (p : Started) (c : Channel) : Poll.Key Relay where
  stream := { id := p.pipe c, kind := .pipe }
  interest := .reading
  attachment := some ⟨p.uid, c⟩

/-- A started program is remembered and its pipes are watched. -/
def adopt (b : Spawn) (p : Started) : Spawn where
  workers := b.workers.insert p.uid [p.output, p.errors]
  pipes := { b.pipes with
    keys := (b.pipes.keys.insert p.output (watched p .output)).insert p.errors (watched p .errors) }

theorem find?_adopt_pipe (hdiff : p.output ≠ p.errors) (b : Spawn) (c : Channel) :
    (b.adopt p).pipes.keys.find? (p.pipe c) = some (watched p c) := by
  cases c with
  | output => simp [adopt, Table.find?_insert, Started.pipe, hdiff]
  | errors => simp [adopt, Table.find?_insert, Started.pipe]

theorem find?_adopt_of_ne {id : StreamId} (h : ∀ c, p.pipe c ≠ id) (b : Spawn) :
    (b.adopt p).pipes.keys.find? id = b.pipes.keys.find? id := by
  have houtput : id ≠ p.output := (h .output).symm
  have herrors : id ≠ p.errors := (h .errors).symm
  simp [adopt, Table.find?_insert, houtput, herrors]

theorem Wired.adopt (h : b.Wired w []) (hdiff : p.output ≠ p.errors)
    (hnew : ∀ q ∈ w.started, ∀ c c', p.pipe c ≠ q.pipe c')
    (hfree : b.workers.contains p.uid = false) : (b.adopt p).Wired (w.join p) [] where
  nodup := by
    refine List.nodup_append.mpr ⟨h.nodup, by simp, fun q hq q' hq' => ?_⟩
    rw [List.mem_singleton.mp hq']
    rintro rfl
    exact hnew q hq .output .output rfl
  own q hq q' hq' c c' hpipe := by
    rcases List.mem_append.mp hq with hq | hq <;> rcases List.mem_append.mp hq' with hq' | hq'
    · exact h.own q hq q' hq' c c' hpipe
    · rw [List.mem_singleton.mp hq'] at hpipe
      exact absurd hpipe.symm (hnew q hq c' c)
    · rw [List.mem_singleton.mp hq] at hpipe
      exact absurd hpipe (hnew q' hq' c c')
    · rw [List.mem_singleton.mp hq, List.mem_singleton.mp hq'] at hpipe ⊢
      refine ⟨rfl, ?_⟩
      cases c <;> cases c' <;> simp_all [Started.pipe]
  key {id key} hkey := by
    by_cases hpipe : ∃ c, p.pipe c = id
    · obtain ⟨c, rfl⟩ := hpipe
      rw [find?_adopt_pipe hdiff] at hkey
      cases hkey
      exact ⟨rfl, p, List.mem_append_right _ List.mem_cons_self, c, rfl, rfl⟩
    · rw [find?_adopt_of_ne (not_exists.mp hpipe)] at hkey
      obtain ⟨hstream, q, hq, hrest⟩ := h.key hkey
      exact ⟨hstream, q, List.mem_append_left _ hq, hrest⟩
  held {id} hid := by
    by_cases hpipe : ∃ c, p.pipe c = id
    · obtain ⟨c, rfl⟩ := hpipe
      refine .inr ⟨p.uid, [p.output, p.errors], by simp [Spawn.adopt, Table.find?_insert], ?_⟩
      cases c <;> simp [Started.pipe]
    · rw [Table.contains, find?_adopt_of_ne (not_exists.mp hpipe)] at hid
      obtain ⟨uid, ids, hids, hmem⟩ := (h.held hid).resolve_left List.not_mem_nil
      have hne : uid ≠ p.uid := by
        rintro rfl
        rw [Table.contains, hids] at hfree
        cases hfree
      exact .inr ⟨uid, ids, by simpa [Spawn.adopt, Table.find?_insert, hne] using hids, hmem⟩
  record {uid ids} hids := by
    by_cases huid : uid = p.uid
    · subst huid
      have hown : [p.output, p.errors] = ids := by
        simpa [Spawn.adopt, Table.find?_insert] using hids
      refine ⟨p, by simp [Outside.latest, Outside.bearers_join_self], fun id hid => ?_⟩
      rw [← hown] at hid
      rcases List.mem_cons.mp hid with rfl | hid
      · exact ⟨.output, rfl⟩
      · exact ⟨.errors, (List.mem_singleton.mp hid).symm⟩
    · rw [Outside.latest, Outside.bearers_join_of_ne (Ne.symm huid)]
      refine h.record ?_
      simpa [Spawn.adopt, Table.find?_insert, huid] using hids

/-- Nothing was written by a program that has just been started, and its pipes are watched. -/
theorem Sound.adopt (h : b.Sound w struck []) (hdiff : p.output ≠ p.errors)
    (hnew : ∀ q ∈ w.started, ∀ c c', p.pipe c ≠ q.pipe c')
    (hfree : b.workers.contains p.uid = false) : (b.adopt p).Sound (w.join p) struck [] := by
  obtain ⟨pieces, hpieces⟩ := h.relayed
  have hp : p ∉ w.started := fun hp => hnew p hp .output .output rfl
  have hlife : (w.join p).life p = {} := Function.update_self _ _ _
  refine ⟨h.wired.adopt hdiff hnew hfree, pieces, hpieces.sink,
    fun x hx => List.mem_append_left _ (hpieces.source x hx), fun q hq c => ?_, fun q hq c => ?_,
    fun q hq hspared c => ?_⟩
  all_goals rcases List.mem_append.mp hq with hq | hq
  · rw [Outside.life_join_of_mem hp hq]
    exact hpieces.share q hq c
  · rw [List.mem_singleton.mp hq, hlife]
    exact share_eq_nil (p := p) (fun x hx hsource => hp (hsource ▸ hpieces.source x hx)) c
  · rw [Outside.life_join_of_mem hp hq]
    exact hpieces.read q hq c
  · simp [List.mem_singleton.mp hq, hlife]
  · rw [Outside.life_join_of_mem hp hq, Table.contains,
      find?_adopt_of_ne fun c' => hnew q hq c' c]
    exact hpieces.drained q hq hspared c
  · rw [List.mem_singleton.mp hq, Table.contains, find?_adopt_pipe hdiff]
    exact .inl rfl

end Adoption

/-! ## Draining pipes -/

section Calls

variable {calls : ProgramCalls σ} {view : σ → Outside} {b : Spawn} {s : σ}
  {struck : List Started} {loose loose' : List StreamId} {pieces : List Piece}

/-- What stays while pipes are drained and closed: nothing is started, who has ended still has, and
the same workers are remembered. -/
structure Keeps (view : σ → Outside) (x y : Spawn × σ) : Prop where
  onward : (view x.2).Onward (view y.2)
  contains : ∀ uid, y.1.workers.contains uid = x.1.workers.contains uid

theorem Keeps.refl (view : σ → Outside) (x : Spawn × σ) : Keeps view x x :=
  ⟨.refl _, fun _ => rfl⟩

theorem Keeps.trans {x y z : Spawn × σ} (h : Keeps view x y) (h' : Keeps view y z) :
    Keeps view x z :=
  ⟨h.onward.trans h'.onward, fun uid => (h'.contains uid).trans (h.contains uid)⟩

theorem closePipe_fst (calls : ProgramCalls σ) (b : Spawn) (id : StreamId) (s : σ) :
    (b.closePipe calls id s).1 = { b with pipes := b.pipes.remove id } :=
  congrArg (fun pipes => ({ b with pipes } : Spawn)) (Selector.discard_fst _ _ _ _)

theorem later_closePipe (hcalls : calls.Faithful view) (b : Spawn) (id : StreamId) (s : σ) :
    (view s).Later (view (b.closePipe calls id s).2) := by
  have hstate : (b.closePipe calls id s).2 = (b.pipes.discard id calls.host s).2 := rfl
  rw [hstate]
  rcases b.pipes.discard_snd id calls.host s with heq | heq
  · rw [heq]
    exact .refl _
  · rw [heq]
    exact hcalls.close id s

theorem keeps_closePipe (hcalls : calls.Faithful view) (b : Spawn) (id : StreamId) (s : σ) :
    Keeps view (b, s) (b.closePipe calls id s) :=
  ⟨(later_closePipe hcalls b id s).onward, fun _ => by rw [closePipe_fst]⟩

theorem Sound.closePipe (hcalls : calls.Faithful view) (h : b.Sound (view s) struck loose)
    {id : StreamId}
    (hid : ∀ p ∈ (view s).started, p ∉ struck → ∀ c, p.pipe c = id → ((view s).life p).Drained c)
    (hloose : ∀ x ∈ loose, x ≠ id → x ∈ loose') :
    (b.closePipe calls id s).1.Sound (view (b.closePipe calls id s).2) struck loose' := by
  rw [closePipe_fst]
  exact (h.remove hid hloose).later (later_closePipe hcalls b id s)

/-- The pipes of a program that is stopped hard are closed with what is left in them. -/
theorem Sound.closePipes (hcalls : calls.Faithful view) {ids : List StreamId}
    (h : b.Sound (view s) struck ids)
    (hids : ∀ p ∈ (view s).started, ∀ c, p.pipe c ∈ ids → p ∈ struck) :
    (Spawn.closePipes calls ids b s).1.Sound (view (Spawn.closePipes calls ids b s).2) struck [] ∧
      Keeps view (b, s) (Spawn.closePipes calls ids b s) := by
  induction ids generalizing b s with
  | nil => exact ⟨h, .refl _ _⟩
  | cons id rest ih =>
    have hclosed : (b.closePipe calls id s).1.Sound (view (b.closePipe calls id s).2) struck rest :=
      h.closePipe hcalls
        (fun p hp hspared c hpipe => absurd (hids p hp c (hpipe ▸ List.mem_cons_self)) hspared)
        fun x hx hne => (List.mem_cons.mp hx).resolve_left hne
    have hkeeps := keeps_closePipe hcalls b id s
    obtain ⟨hrest, hkeeps'⟩ := ih hclosed fun p hp c hmem =>
      hids p (hkeeps.onward.started ▸ hp) c (List.mem_cons_of_mem _ hmem)
    exact ⟨hrest, hkeeps.trans hkeeps'⟩

/-- The state after all that a pipe has was read and relayed. -/
def pumped (calls : ProgramCalls σ) (id : StreamId) (c : Channel) (s : σ) : σ :=
  calls.relay c (ReadEvent.delivered (calls.host.incoming id s))
    (calls.host.consume id (calls.host.incoming id s).length s)

/-- A drain of a pipe that is watched.  If the pipe has ended, it is closed and forgotten. -/
theorem Wired.drainPipe_eq {w : Outside} (h : b.Wired w loose) {id : StreamId}
    {key : Poll.Key Relay} (hkey : b.pipes.keys.find? id = some key) (calls : ProgramCalls σ)
    (s : σ) :
    ∃ p ∈ w.started, ∃ c, p.pipe c = id ∧ b.drainPipe calls id s =
      match ReadEvent.failure? (calls.host.incoming id s) with
      | none => (b, pumped calls id c s)
      | some _ =>
        ({ b with
            pipes := b.pipes.remove id, workers := b.workers.modify p.uid (·.filter (· ≠ id)) },
          (b.closePipe calls id (pumped calls id c s)).2) := by
  obtain ⟨hstream, p, hp, c, hpipe, hattachment⟩ := h.key hkey
  have hread : key.stream.read calls.host s =
      (calls.host.incoming id s, calls.host.consume id (calls.host.incoming id s).length s) := by
    rw [hstream]
    rfl
  refine ⟨p, hp, c, hpipe, ?_⟩
  simp only [Spawn.drainPipe, hkey, hattachment, hread, closePipe_fst]
  rfl

/-- What was read is relayed.  If nobody is left to write, nothing is left in the pipe. -/
theorem Relayed.pumped {pipes : Selector Relay} (hcalls : calls.Faithful view)
    (h : Relayed pipes (view s) struck pieces) {p : Started} (hp : p ∈ (view s).started)
    (c : Channel) :
    (∃ pieces', Relayed pipes (view (Spawn.pumped calls (p.pipe c) c s)) struck pieces') ∧
      (view s).Onward (view (Spawn.pumped calls (p.pipe c) c s)) ∧
      (((view s).life p).exit ≠ none ∨
          ReadEvent.failure? (calls.host.incoming (p.pipe c) s) ≠ none →
        ((view (Spawn.pumped calls (p.pipe c) c s)).life p).Drained c) := by
  obtain ⟨w, hread, hdelivered, hfailure, htake⟩ := hcalls.read s p hp c
  have hput := hcalls.relay c (ReadEvent.delivered (calls.host.incoming (p.pipe c) s))
    (calls.host.consume (p.pipe c) (calls.host.incoming (p.pipe c) s).length s)
  rw [hdelivered] at hput
  have hpw : p ∈ w.started := hread.started ▸ hp
  -- Reading and relaying are two calls, but what programs do in between does not interfere.
  have hlater : ((w.take p c).put c ((w.life p).unread c)).Later
      (view (Spawn.pumped calls (p.pipe c) c s)) := by
    rw [Spawn.pumped, hdelivered]
    exact (htake.put c _).trans hput
  refine ⟨⟨_, ((h.later hread).transfer hpw c).later hlater⟩, ?_, fun hover => ?_⟩
  · exact hread.onward.trans
      ((Outside.onward_take _ _ _).trans ((Outside.onward_put _ _ _).trans hlater.onward))
  · have hgone : (w.life p).ended c = true ∨ (w.life p).exit ≠ none := by
      rcases hover with hexit | hended
      · exact .inr (hread.onward.exit_ne_none hp hexit)
      · exact .inl (hfailure.resolve_left hended).2
    exact (hlater.life p hpw).drained (Outside.drained_take_self hgone)

/-- Relaying what a pipe has keeps everything in order.  If the program had ended, nothing is left
in its pipe. -/
theorem Sound.drainPipe (hcalls : calls.Faithful view) (h : b.Sound (view s) struck loose)
    (id : StreamId) :
    (b.drainPipe calls id s).1.Sound (view (b.drainPipe calls id s).2) struck loose ∧
      Keeps view (b, s) (b.drainPipe calls id s) ∧
      ∀ p ∈ (view s).started, p ∉ struck → ∀ c, p.pipe c = id → ((view s).life p).exit ≠ none →
        ((view (b.drainPipe calls id s).2).life p).Drained c := by
  obtain ⟨pieces, hpieces⟩ := h.relayed
  cases hkey : b.pipes.keys.find? id with
  | none =>
    have hsame : b.drainPipe calls id s = (b, s) := by
      rw [Spawn.drainPipe, hkey]
    rw [hsame]
    refine ⟨h, .refl _ _, ?_⟩
    rintro p hp hspared c rfl _
    refine (hpieces.drained p hp hspared c).resolve_left fun hwatched => ?_
    rw [Table.contains, hkey] at hwatched
    cases hwatched
  | some key =>
    obtain ⟨p, hp, c, rfl, heq⟩ := h.wired.drainPipe_eq hkey calls s
    obtain ⟨hrelayed, honward, hdrained⟩ := hpieces.pumped hcalls hp c
    have hsound : b.Sound (view (Spawn.pumped calls (p.pipe c) c s)) struck loose :=
      ⟨h.wired.onward honward, hrelayed⟩
    -- Only this program writes to the pipe, so what holds of it holds of all.
    have honly : ∀ q ∈ (view s).started, ∀ c', q.pipe c' = p.pipe c → q = p ∧ c' = c :=
      fun q hq c' hpipe => h.wired.own q hq p hp c' c hpipe
    rw [heq]
    split
    · refine ⟨hsound, ⟨honward, fun _ => rfl⟩, fun q hq _ c' hpipe hexit => ?_⟩
      obtain ⟨rfl, rfl⟩ := honly q hq c' hpipe
      exact hdrained (.inl hexit)
    · rename_i failure hfailure
      have hempty := hdrained (.inr (by simp [hfailure]))
      have hclosed : Sound { b with pipes := b.pipes.remove (p.pipe c) }
          (view (Spawn.pumped calls (p.pipe c) c s)) struck loose := by
        refine hsound.remove (fun q hq _ c' hpipe => ?_) fun x hx _ => hx
        obtain ⟨rfl, rfl⟩ := honly q (honward.started ▸ hq) c' hpipe
        exact hempty
      have hlater := later_closePipe hcalls b (p.pipe c) (Spawn.pumped calls (p.pipe c) c s)
      refine ⟨(hclosed.later hlater).release (by simp [Selector.find?_remove]) p.uid,
        ⟨honward.trans hlater.onward, fun uid => Table.contains_modify _ _ uid _⟩,
        fun q hq _ c' hpipe _ => ?_⟩
      obtain ⟨rfl, rfl⟩ := honly q hq c' hpipe
      exact (hlater.life q (honward.started ▸ hq)).drained hempty

theorem Sound.drainPipes (hcalls : calls.Faithful view) (h : b.Sound (view s) struck loose)
    (ids : List StreamId) :
    (Spawn.drainPipes calls ids b s).1.Sound (view (Spawn.drainPipes calls ids b s).2) struck
        loose ∧
      Keeps view (b, s) (Spawn.drainPipes calls ids b s) := by
  induction ids generalizing b s with
  | nil => exact ⟨h, .refl _ _⟩
  | cons id rest ih =>
    obtain ⟨hsound, hkeeps, -⟩ := h.drainPipe hcalls id
    obtain ⟨hrest, hkeeps'⟩ := ih hsound
    exact ⟨hrest, hkeeps.trans hkeeps'⟩

/-- A poll of the pipes keeps everything in order. -/
theorem Sound.select (hcalls : calls.Faithful view) (h : b.Sound (view s) struck loose)
    (timeout : Option Duration) :
    Sound { b with pipes := (b.pipes.select timeout calls.host s).2.1 }
        (view (b.pipes.select timeout calls.host s).2.2) struck loose ∧
      (view s).Later (view (b.pipes.select timeout calls.host s).2.2) := by
  have hlater : (view s).Later (view (b.pipes.select timeout calls.host s).2.2) := by
    rcases b.pipes.state_select timeout calls.host s with heq | heq
    · rw [heq]
      exact .refl _
    · rw [heq]
      exact hcalls.poll b.pipes.pruneClosed.pollEntries timeout s
  have hopen : ∀ {id key}, b.pipes.keys.find? id = some key → key.stream.closed = false :=
    fun hkey => by rw [(h.wired.key hkey).1]
  exact ⟨(h.refit fun id => Selector.map_fixture_select hopen timeout calls.host s id).later hlater,
    hlater⟩

/-- Relaying what has arrived keeps everything in order, also if the poll fails. -/
theorem Sound.relayOutput (hcalls : calls.Faithful view) (h : b.Sound (view s) struck loose) :
    (b.relayOutput calls s).2.1.Sound (view (b.relayOutput calls s).2.2) struck loose ∧
      Keeps view (b, s) (b.relayOutput calls s).2 := by
  obtain ⟨hsound, hlater⟩ := h.select hcalls (some .zero)
  unfold Spawn.relayOutput
  split
  · rename_i heq
    rw [heq] at hsound hlater
    exact ⟨hsound, hlater.onward, fun _ => rfl⟩
  · rename_i heq
    rw [heq] at hsound hlater
    exact ⟨hsound, hlater.onward, fun _ => rfl⟩
  · rename_i pipes s' _ heq
    rw [heq] at hsound hlater
    obtain ⟨hdrained, hkeeps⟩ := hsound.drainPipes hcalls pipes.ready
    exact ⟨hdrained, hlater.onward.trans hkeeps.onward, hkeeps.contains⟩

/-- Relaying fails only if the poll of the pipes does. -/
theorem failed_of_relayOutput {e : Error} (h : (b.relayOutput calls s).1 = .error e) :
    ∃ failure,
      (calls.host.poll b.pipes.pruneClosed.pollEntries (some .zero) s).1 = .failed failure := by
  unfold Spawn.relayOutput at h
  split at h
  · rename_i heq
    exact Selector.failed_of_select (congrArg Prod.fst heq)
  · cases h
  · cases h

/-! ## Ends of workers -/

/-- Drains a pipe for the last time. -/
def finish (calls : ProgramCalls σ) (y : Spawn × σ) (id : StreamId) : Spawn × σ :=
  (y.1.drainPipe calls id y.2).1.closePipe calls id (y.1.drainPipe calls id y.2).2

/-- A pipe of a program that has ended is drained and closed. -/
theorem Sound.finish (hcalls : calls.Faithful view) {id : StreamId} {rest : List StreamId}
    {y : Spawn × σ} (h : y.1.Sound (view y.2) struck (id :: rest))
    (hexit : ∀ p ∈ (view y.2).started, ∀ c, p.pipe c = id → ((view y.2).life p).exit ≠ none) :
    (finish calls y id).1.Sound (view (finish calls y id).2) struck rest ∧
      Keeps view y (finish calls y id) := by
  obtain ⟨hdrained, hkeeps, hempty⟩ := h.drainPipe hcalls id
  refine ⟨hdrained.closePipe hcalls (fun p hp hspared c hpipe => ?_) fun x hx hne => ?_,
    hkeeps.trans (keeps_closePipe hcalls _ id _)⟩
  · rw [hkeeps.onward.started] at hp
    exact hempty p hp hspared c hpipe (hexit p hp c hpipe)
  · exact (List.mem_cons.mp hx).resolve_left hne

theorem Sound.finishAll (hcalls : calls.Faithful view) {ids : List StreamId} {y : Spawn × σ}
    (h : y.1.Sound (view y.2) struck ids)
    (hexit : ∀ p ∈ (view y.2).started, ∀ c, p.pipe c ∈ ids → ((view y.2).life p).exit ≠ none) :
    (ids.foldl (Spawn.finish calls) y).1.Sound (view (ids.foldl (Spawn.finish calls) y).2) struck
        [] ∧
      Keeps view y (ids.foldl (Spawn.finish calls) y) := by
  induction ids generalizing y with
  | nil => exact ⟨h, .refl _ _⟩
  | cons id rest ih =>
    obtain ⟨hfinished, hkeeps⟩ := h.finish hcalls fun p hp c hpipe =>
      hexit p hp c (hpipe ▸ List.mem_cons_self)
    obtain ⟨hrest, hkeeps'⟩ := ih hfinished fun p hp c hmem => by
      rw [hkeeps.onward.started] at hp
      exact hkeeps.onward.exit_ne_none hp (hexit p hp c (List.mem_cons_of_mem _ hmem))
    exact ⟨hrest, hkeeps.trans hkeeps'⟩

theorem bury_eq {uid : WorkerId} {ids : List StreamId} (h : b.workers.find? uid = some ids)
    (calls : ProgramCalls σ) (s : σ) :
    b.bury calls uid s =
      ids.foldl (finish calls) ({ b with workers := b.workers.erase uid }, s) := by
  rw [Spawn.bury, h]
  rfl

/-- Burying a worker whose program has ended keeps everything in order, and forgets it. -/
theorem Sound.bury (hcalls : calls.Faithful view) (h : b.Sound (view s) struck [])
    {uid : WorkerId} (hknown : b.workers.contains uid = true) {p : Started}
    (hp : (view s).latest uid = some p) (hexit : ((view s).life p).exit ≠ none) :
    (b.bury calls uid s).1.Sound (view (b.bury calls uid s).2) struck [] ∧
      (view s).Onward (view (b.bury calls uid s).2) ∧
      ∀ uid', (b.bury calls uid s).1.workers.contains uid' =
        (b.workers.erase uid).contains uid' := by
  obtain ⟨ids, hids⟩ := Option.isSome_iff_exists.mp hknown
  have hloose : Sound { b with workers := b.workers.erase uid } (view s) struck ids :=
    h.loosen hids (fun uid' hne => by rw [Table.find?_erase, if_neg hne])
      (fun ids' hids' => by simp [Table.find?_erase] at hids')
  obtain ⟨hsound, hkeeps⟩ := Sound.finishAll (y := ({ b with workers := b.workers.erase uid }, s))
    hcalls hloose fun q hq c hmem => by
      rw [h.wired.owner hids hp hq hmem]
      exact hexit
  rw [bury_eq hids]
  exact ⟨hsound, hkeeps.onward, hkeeps.contains⟩

end Calls

end Spawn

end Supervisor.Backend
