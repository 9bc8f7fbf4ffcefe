import Supervisor.Proofs.Bus.Intake
import Supervisor.Proofs.Bus.Routing
import Supervisor.Sim.Exchange

/-!
# The bound of the queue

The queue is cut to its bound after every change, so also between the moment
that an envelope arrives and the routing pass at the end of the same call.
What is cut off is the oldest, whether or not somebody could have received it.

`newest_reach` says which envelopes are safe: in one call of `send` or
`onReady`, an envelope that has a recipient reaches it if fewer envelopes than
the bound stand behind it.  `deliverable_discarded` shows two calls in which
others are lost.

* `Trims` is what the bound may do to envelopes that gather.
* `gathers_serveAll` follows the ready streams one by one.  What each of them
  delivers (`arrival`) goes to the end of the queue, which is then cut.
* `reaches_of_mem` is about the pass: whatever is still in the queue when it
  begins meets its fate.
-/

namespace Supervisor.Bus

open Poll (Host)

/-! ## Trimming -/

/-- `queue` are the newest of `all`, at least as many as the bound allows. -/
structure Trims (bound : Nat) (all queue : List Queued) : Prop where
  suffix : queue <:+ all
  enough : min bound all.length ≤ queue.length

theorem Trims.refl (bound : Nat) (all : List Queued) : Trims bound all all :=
  ⟨List.suffix_refl all, Nat.min_le_right _ _⟩

theorem trims_newest (bound : Nat) (all : List Queued) : Trims bound all (newest bound all) := by
  refine ⟨List.drop_suffix _ _, ?_⟩
  unfold newest
  rw [List.length_drop]
  omega

/-- More envelopes come to some that were trimmed, and they are trimmed again. -/
theorem Trims.trans {bound : Nat} {all queue queue' fresh : List Queued}
    (h : Trims bound all queue) (h' : Trims bound (queue ++ fresh) queue') :
    Trims bound (all ++ fresh) queue' := by
  obtain ⟨before, hall⟩ := h.suffix
  have hsuffix : queue ++ fresh <:+ all ++ fresh := ⟨before, by rw [← hall, List.append_assoc]⟩
  have henough := h.enough
  have henough' := h'.enough
  rw [List.length_append] at henough'
  refine ⟨h'.suffix.trans hsuffix, ?_⟩
  rw [List.length_append]
  omega

/-- An envelope is left if fewer than the bound allows stand behind it. -/
theorem Trims.mem {bound : Nat} {queue earlier later : List Queued} {q : Queued}
    (h : Trims bound (earlier ++ q :: later) queue) (hlater : later.length < bound) :
    q ∈ queue := by
  obtain ⟨before, hbefore⟩ := h.suffix
  have henough := h.enough
  rw [← hbefore, List.length_append] at henough
  have hlength := congrArg List.length hbefore
  rw [List.length_append, List.length_append, List.length_cons] at hlength
  have hindex : queue[earlier.length - before.length]? = some q := by
    have hall : (before ++ queue)[earlier.length]? = some q := by
      rw [hbefore, List.getElem?_append_right (Nat.le_refl _), Nat.sub_self]
      rfl
    rwa [List.getElem?_append_right (by omega)] at hall
  exact List.mem_of_getElem? hindex

namespace Broker

variable {σ : Type} {host : Host σ} {b b' b'' : Broker σ}

/-! ## What gathers -/

/-- Some envelopes have come to the queue, which may have been trimmed; the rest
of the mail is as it was. -/
structure Gathers (fresh : List Queued) (b b' : Broker σ) : Prop where
  requeue : b'.requeue = b.requeue
  inbox : b'.inbox = b.inbox
  queue : Trims b.requeue.maxQueued (b.queue ++ fresh) b'.queue

theorem SameMail.gathers (h : SameMail b b') : Gathers [] b b' := by
  obtain ⟨_, _, _, _, rfl⟩ := h
  refine ⟨rfl, rfl, ?_⟩
  rw [List.append_nil]
  exact Trims.refl _ _

theorem Gathers.trans {fresh fresh' : List Queued} (h : Gathers fresh b b')
    (h' : Gathers fresh' b' b'') : Gathers (fresh ++ fresh') b b'' := by
  have hqueue := h'.queue
  rw [h.requeue] at hqueue
  refine ⟨h'.requeue.trans h.requeue, h'.inbox.trans h.inbox, ?_⟩
  rw [← List.append_assoc]
  exact h.queue.trans hqueue

theorem Gathers.sameMail {fresh : List Queued} (h : Gathers fresh b b') (h' : SameMail b' b'') :
    Gathers fresh b b'' := by
  have hall := h.trans h'.gathers
  rwa [List.append_nil] at hall

theorem gathers_takeFrames (host : Host σ) (b : Broker σ) (id : StreamId) (peer : Peer) :
    Gathers (b.fresh host peer) b (b.takeFrames host id peer).2 := by
  rcases takeFrames_cases host b id peer with ⟨huid, h⟩ | ⟨_, h⟩ | ⟨_, h⟩
  · have hfresh : b.fresh host peer = [] := by
      unfold fresh
      rw [huid]
    rw [h, hfresh]
    exact (SameMail.refl b).gathers
  · -- a frame was too long: the bound waits for the next connection
    rw [h]
    exact ⟨rfl, rfl, Trims.refl _ _⟩
  · rw [h]
    exact ⟨rfl, rfl, trims_newest _ _⟩

/-- What reading a connection adds to the queue. -/
def read (host : Host σ) (b : Broker σ) (id : StreamId) : List Queued :=
  match b.selector.keys.find? id with
  | none => []
  | some key =>
    match key.attachment with
    | none => []
    | some peer =>
      let heard := b.hear host id key peer
      let greeted := heard.2.greet host id heard.1
      match greeted.1 with
      | none => []
      | some peer' => greeted.2.fresh host peer'

theorem gathers_readPeer (b : Broker σ) (id : StreamId) :
    Gathers (b.read host id) b (b.readPeer host id) := by
  rcases readPeer_cases host b id with ⟨hpeer, h⟩ | ⟨key, peer, hkey, hpeer, h⟩
  · have hread : b.read host id = [] := by
      unfold read
      unfold peer? at hpeer
      split
      · rfl
      · rename_i key hkey
        rw [hkey, Option.bind_some] at hpeer
        rw [hpeer]
    rw [h, hread]
    exact (SameMail.refl b).gathers
  · let heard := b.hear host id key peer
    let greeted := heard.2.greet host id heard.1
    have hheard : SameMail b heard.2 := ⟨_, _, _, _, rfl⟩
    have hgreeted : SameMail b greeted.2 := hheard.trans (sameMail_greet _ id _)
    have hread : b.read host id = match greeted.1 with
        | none => []
        | some peer' => greeted.2.fresh host peer' := by
      unfold read
      rw [hkey]
      simp only [hpeer]
      rfl
    rw [hread]
    rcases h with ⟨hnone, h⟩ | ⟨peer', hsome, h⟩
    · rw [hnone, h]
      exact hgreeted.gathers
    · have htaken := hgreeted.gathers.trans (gathers_takeFrames host greeted.2 id peer')
      rw [List.nil_append] at htaken
      rw [hsome]
      rcases h with h | h
      · rw [h]
        exact htaken
      · rw [h]
        exact htaken.sameMail (sameMail_dropConnection _ id)

/-- What handling one ready stream adds to the queue. -/
def arrival (host : Host σ) (b : Broker σ) (id : StreamId) : List Queued :=
  if id = b.listener then []
  else
    match b.selector.keys.find? id with
    | none => []
    | some key =>
      let b := if key.ready.write then b.flushPeer host id else b
      if key.ready.read then b.read host id else []

theorem gathers_serve (host : Host σ) (b : Broker σ) (id : StreamId) :
    Gathers (b.arrival host id) b (b.serve host id).2 := by
  unfold arrival serve
  by_cases hlistener : id = b.listener
  · rw [if_pos hlistener, if_pos hlistener]
    exact (sameMail_accept b).gathers
  · rw [if_neg hlistener, if_neg hlistener]
    cases b.selector.keys.find? id with
    | none => exact (SameMail.refl b).gathers
    | some key =>
      let flushed := if key.ready.write then b.flushPeer host id else b
      have hflushed : SameMail b flushed := by
        by_cases hwrite : key.ready.write = true
        · simp only [flushed, if_pos hwrite]
          exact (moves_flushPeer b id).sameMail
        · simp only [flushed, if_neg hwrite]
          exact .refl b
      show Gathers (if key.ready.read then flushed.read host id else []) b
        (if key.ready.read then flushed.readPeer host id else flushed)
      by_cases hread : key.ready.read = true
      · rw [if_pos hread, if_pos hread]
        exact hflushed.gathers.trans (gathers_readPeer flushed id)
      · rw [if_neg hread, if_neg hread]
        exact hflushed.gathers

/-- What handling ready streams adds to the queue. -/
def arrivals (host : Host σ) : List StreamId → Broker σ → List Queued
  | [], _ => []
  | id :: rest, b =>
    match b.serve host id with
    | (.error _, _) => b.arrival host id
    | (.ok (), b') => b.arrival host id ++ arrivals host rest b'

theorem gathers_serveAll (host : Host σ) (ids : List StreamId) (b : Broker σ) :
    Gathers (b.arrivals host ids) b (serveAll host ids b).2 := by
  induction ids generalizing b with
  | nil => exact (SameMail.refl b).gathers
  | cons id ids ih =>
    have hone := gathers_serve host b id
    unfold serveAll arrivals
    generalize b.serve host id = served at hone ⊢
    obtain ⟨outcome, b'⟩ := served
    cases outcome with
    | error e => exact hone
    | ok _ => exact hone.trans (ih b')

/-! ## What a pass makes of it -/

/-- Somebody is connected, or at home, who is to receive the envelope. -/
def Deliverable (b : Broker σ) (e : Envelope) : Prop :=
  e.audience = .server ∨ e.audience = .sender ∨ e.audience = .all ∨
    (e.audience = .selected ∧ ⟨e.number⟩ ∈ b.connected)

/-- A routing pass brings an envelope to the inbox or offers it to those that it
is for. -/
def Reaches (host : Host σ) (b : Broker σ) (q : Queued) : Prop :=
  ((q, Fate.inbox) ∈ b.passFates host ∧ q.envelope ∈ (b.route host).inbox) ∨
    ∃ uids, (q, Fate.offered uids) ∈ b.passFates host ∧
      Routed q.envelope b.connected (.recipients uids)

theorem Deliverable.delivery {e : Envelope} {d : Delivery} (h : b.Deliverable e)
    (hrouted : Routed e b.connected d) : d = .atHome ∨ ∃ uids, d = .recipients uids := by
  unfold Deliverable at h
  cases hrouted with
  | all | any | amount | selected => exact Or.inr ⟨_, rfl⟩
  | selectedHome | home => exact Or.inl rfl
  | anyWaits haudience _ =>
    rw [haudience] at h
    simp at h
  | amountWaits haudience _ =>
    rw [haudience] at h
    simp at h
  | selectedGone haudience _ hgone =>
    rw [haudience] at h
    simp [hgone] at h

theorem reaches_of_mem (host : Host σ) {q : Queued} (hq : q ∈ b.queue)
    (hdeliverable : b.Deliverable q.envelope) : b.Reaches host q := by
  have hlog : q ∈ (b.passFates host).map Prod.fst := by
    rw [passFates, map_fst_fates]
    exact hq
  obtain ⟨⟨_, fate⟩, hmem, rfl⟩ := List.mem_map.mp hlog
  obtain ⟨d, hrouted, hfate⟩ := routed_of_mem_passFates hmem
  rcases hdeliverable.delivery hrouted with rfl | ⟨uids, rfl⟩
  · left
    cases hfate
    refine ⟨hmem, ?_⟩
    rw [inbox_route]
    exact List.mem_append_right _ (List.mem_map.mpr ⟨_, List.mem_filter.mpr ⟨hmem, by simp⟩, rfl⟩)
  · right
    cases hfate
    exact ⟨uids, hmem, hrouted⟩

/-- Of some envelopes that gathered the bound has taken the oldest at most, and
no deliverable one with fewer than `bound` behind it. -/
structure Spares (host : Host σ) (bound : Nat) (all : List Queued) (b : Broker σ) : Prop where
  suffix : b.queue <:+ all
  reach : ∀ earlier q later, all = earlier ++ q :: later → later.length < bound →
    b.Deliverable q.envelope → b.Reaches host q

theorem spares_of_trims {bound : Nat} {all : List Queued} (h : Trims bound all b.queue) :
    Spares host bound all b := by
  refine ⟨h.suffix, ?_⟩
  intro earlier q later hall hlater hdeliverable
  subst hall
  exact reaches_of_mem host (h.mem hlater) hdeliverable

theorem onReady_eq (host : Host σ) (b : Broker σ) :
    let served := serveAll host b.selector.ready b
    b.onReady host = (served.1, if served.1.isOk then served.2.route host else served.2) := by
  intro served
  unfold onReady
  split
  · rename_i hserved
    simp only [served, hserved]
    rfl
  · rename_i hserved
    simp only [served, hserved]
    rfl

/-- Which envelopes the bound can take before a call of `send` or `onReady`
routes them. -/
theorem newest_reach (host : Host σ) (b : Broker σ) :
    (∀ audience number message,
      let sent : Queued := ⟨⟨.server, audience, number, message⟩, host.clock b.world⟩
      let submitted := b.submit host sent.envelope
      b.send host audience number message = submitted.route host ∧
        submitted.queue = newest b.requeue.maxQueued (b.queue ++ [sent]) ∧
        Spares host b.requeue.maxQueued (b.queue ++ [sent]) submitted) ∧
      let served := serveAll host b.selector.ready b
      b.onReady host = (served.1, if served.1.isOk then served.2.route host else served.2) ∧
        Spares host b.requeue.maxQueued (b.queue ++ b.arrivals host b.selector.ready) served.2 := by
  constructor
  · intro audience number message sent submitted
    have hqueue : submitted.queue = newest b.requeue.maxQueued (b.queue ++ [sent]) := rfl
    have htrims := trims_newest b.requeue.maxQueued (b.queue ++ [sent])
    rw [← hqueue] at htrims
    exact ⟨rfl, hqueue, spares_of_trims htrims⟩
  · intro served
    exact ⟨onReady_eq host b, spares_of_trims (gathers_serveAll host b.selector.ready b).queue⟩

/-- Two calls that lose an envelope for the scheduler.  With room for no
envelope at all, what is sent is dropped before it is routed.  With room for
one, the first of two that arrive together is dropped by the second. -/
theorem deliverable_discarded :
    let report (text : String) : Envelope := ⟨⟨2⟩, .server, 0, .text text⟩
    let closed := (Sim.Exchange.opened ⟨0, 30000⟩ {}).send Sim.World.host .server 0 (.text "lost")
    let narrow := (Sim.Exchange.opened ⟨1, 30000⟩ {}).join ⟨2⟩
    let both := Sim.Exchange.turn
      (narrow.say ⟨2⟩ (Wire.frame (report "first") ++ Wire.frame (report "second")))
    closed.inbox = [] ∧ closed.queue = [] ∧
      both.inbox = [report "second"] ∧ both.queue = [] := by
  decide +kernel

end Broker

end Supervisor.Bus
