import Supervisor.Proofs.Bus.Outbound
import Supervisor.Proofs.Bus.Plan
import Supervisor.Sim.World

/-!
# What a routing pass does with the queue

A pass goes through the queue once and gives each envelope one `Fate`.
`fates` lists them in the order of the queue.  `route_settles` reads the whole
outcome of the pass off that list: what is in the inbox, what each connection
was sent, and what stays in the queue.

There are three groups.

* One envelope.  `routeOne_eq` says that the fate alone determines what
  happens (`meet`).
* All envelopes.  The inbox and the queue grow by those with the fate for it
  (`inbox_foldl`, `queue_foldl`), and the account of a connection by the frames
  offered to its worker (`carries_foldl`).
* The pass.  Once every envelope has met its fate, the queue loses its oldest
  envelopes beyond the bound.
-/

namespace Supervisor.Bus

open Wire (Bytes)
open Poll (Host Tape)

/-- What becomes of an envelope in a routing pass. -/
inductive Fate where
  /-- It is moved to the inbox. -/
  | inbox
  /-- Its frame is offered to these workers. -/
  | offered (uids : List WorkerId)
  /-- It stays in the queue. -/
  | kept
  /-- It is dropped, after waiting for recipients too long. -/
  | expired
  /-- It is dropped, because nobody knows the worker that it names. -/
  | unknown
deriving DecidableEq, Repr

/-- The fate of an envelope of some age. -/
def Delivery.fate (ttl age : Duration) : Delivery → Fate
  | .atHome => .inbox
  | .recipients uids => .offered uids
  | .requeue => if ttl ≤ age then .expired else .kept
  | .drop => .unknown

/-- The envelopes that are moved to the inbox. -/
def inboxed (log : List (Queued × Fate)) : List Envelope :=
  (log.filter fun entry => entry.2 = .inbox).map fun entry => entry.1.envelope

/-- The envelopes that stay in the queue. -/
def kept (log : List (Queued × Fate)) : List Queued :=
  (log.filter fun entry => entry.2 = .kept).map fun entry => entry.1

/-- All offers, in their order: the worker and the frame. -/
def offers : List (Queued × Fate) → List (WorkerId × Bytes)
  | [] => []
  | (q, .offered uids) :: log =>
    uids.map (fun uid => (uid, Wire.frame q.envelope)) ++ offers log
  | _ :: log => offers log

/-- The last `n` elements. -/
def newest {α : Type} (n : Nat) (xs : List α) : List α :=
  xs.drop (xs.length - n)

namespace Broker

variable {σ : Type} {host : Host σ}

/-- The fates of envelopes, routed one after another. -/
def fates (host : Host σ) (connected : List WorkerId) (now : Duration) :
    List Queued → Broker σ → List (Queued × Fate)
  | [], _ => []
  | q :: qs, b =>
    (q, (plan q.envelope connected (host.roll b.world).1).fate b.requeue.ttl (now - q.since)) ::
      fates host connected now qs (routeOne host connected now b q)

/-- The fates of the envelopes in the queue. -/
def passFates (host : Host σ) (b : Broker σ) : List (Queued × Fate) :=
  fates host b.connected (host.clock b.world) b.queue { b with queue := [] }

/-! ## One envelope -/

/-- An envelope meets its fate. -/
def meet (host : Host σ) (q : Queued) (b : Broker σ) : Fate → Broker σ
  | .inbox => { b with inbox := b.inbox ++ [q.envelope] }
  | .offered uids => uids.foldl (deliver host (Wire.frame q.envelope)) b
  | .kept => { b with queue := b.queue ++ [q] }
  | .expired | .unknown => b

theorem routeOne_eq (host : Host σ) (connected : List WorkerId) (now : Duration) (b : Broker σ)
    (q : Queued) :
    routeOne host connected now b q =
      meet host q { b with world := (host.roll b.world).2 }
        ((plan q.envelope connected (host.roll b.world).1).fate b.requeue.ttl (now - q.since)) := by
  unfold routeOne
  dsimp only
  cases plan q.envelope connected (host.roll b.world).1 with
  | atHome => rfl
  | recipients uids => rfl
  | drop => rfl
  | requeue =>
    dsimp only [Delivery.fate]
    split
    · rfl
    · rfl

theorem sameMail_offered (host : Host σ) (q : Queued) (uids : List WorkerId) (b : Broker σ) :
    SameMail b (meet host q b (.offered uids)) :=
  (moves_foldl (moves_deliver _) uids b).sameMail

theorem requeue_meet (q : Queued) (b : Broker σ) (fate : Fate) :
    (meet host q b fate).requeue = b.requeue := by
  cases fate with
  | offered uids =>
    obtain ⟨_, _, _, _, h⟩ := sameMail_offered host q uids b
    rw [h]
  | inbox | kept | expired | unknown => rfl

/-- The inbox gets the envelope or stays as it is. -/
theorem inbox_meet (q : Queued) (b : Broker σ) (fate : Fate) :
    (meet host q b fate).inbox = b.inbox ++ inboxed [(q, fate)] := by
  cases fate with
  | inbox => rfl
  | offered uids =>
    obtain ⟨_, _, _, _, h⟩ := sameMail_offered host q uids b
    rw [h]
    exact (List.append_nil _).symm
  | kept | expired | unknown => exact (List.append_nil _).symm

/-- The queue gets the envelope back or stays as it is. -/
theorem queue_meet (q : Queued) (b : Broker σ) (fate : Fate) :
    (meet host q b fate).queue = b.queue ++ kept [(q, fate)] := by
  cases fate with
  | kept => rfl
  | offered uids =>
    obtain ⟨_, _, _, _, h⟩ := sameMail_offered host q uids b
    rw [h]
    exact (List.append_nil _).symm
  | inbox | expired | unknown => exact (List.append_nil _).symm

theorem thins_meet (q : Queued) (b : Broker σ) (fate : Fate) : Thins b (meet host q b fate) := by
  cases fate with
  | offered uids => exact (moves_foldl (moves_deliver _) uids b).thins
  | inbox | kept | expired | unknown => exact .of_eq rfl rfl rfl

theorem thins_routeOne (host : Host σ) (connected : List WorkerId) (now : Duration)
    (b : Broker σ) (q : Queued) : Thins b (routeOne host connected now b q) := by
  have hroll : Thins b { b with world := (host.roll b.world).2 } := .of_eq rfl rfl rfl
  rw [routeOne_eq]
  exact hroll.trans (thins_meet q _ _)

theorem requeue_routeOne (connected : List WorkerId) (now : Duration) (b : Broker σ)
    (q : Queued) : (routeOne host connected now b q).requeue = b.requeue := by
  rw [routeOne_eq, requeue_meet]

/-! ## All envelopes -/

section Pass

variable (host : Host σ) (connected : List WorkerId) (now : Duration)

theorem map_fst_fates (qs : List Queued) (b : Broker σ) :
    (fates host connected now qs b).map Prod.fst = qs := by
  induction qs generalizing b with
  | nil => rfl
  | cons q qs ih =>
    rw [fates, List.map_cons, ih]

/-- Each fate comes from a decision that the routing law allows. -/
theorem routed_of_mem_fates (hconnected : connected.Nodup) {qs : List Queued} {b : Broker σ}
    {entry : Queued × Fate} (h : entry ∈ fates host connected now qs b) :
    ∃ d, Routed entry.1.envelope connected d ∧
      entry.2 = d.fate b.requeue.ttl (now - entry.1.since) := by
  induction qs generalizing b with
  | nil => cases h
  | cons q qs ih =>
    rw [fates] at h
    rcases List.mem_cons.mp h with rfl | h
    · exact ⟨_, routed_plan q.envelope hconnected _, rfl⟩
    · obtain ⟨d, hrouted, hfate⟩ := ih h
      rw [requeue_routeOne] at hfate
      exact ⟨d, hrouted, hfate⟩

theorem requeue_foldl (qs : List Queued) (b : Broker σ) :
    (qs.foldl (routeOne host connected now) b).requeue = b.requeue := by
  induction qs generalizing b with
  | nil => rfl
  | cons q qs ih =>
    rw [List.foldl_cons, ih, requeue_routeOne]

theorem inboxed_cons (entry : Queued × Fate) (log : List (Queued × Fate)) :
    inboxed (entry :: log) = inboxed [entry] ++ inboxed log := by
  unfold inboxed
  rw [← List.map_append, ← List.filter_append, List.singleton_append]

theorem kept_cons (entry : Queued × Fate) (log : List (Queued × Fate)) :
    kept (entry :: log) = kept [entry] ++ kept log := by
  unfold kept
  rw [← List.map_append, ← List.filter_append, List.singleton_append]

theorem inbox_foldl (qs : List Queued) (b : Broker σ) :
    (qs.foldl (routeOne host connected now) b).inbox =
      b.inbox ++ inboxed (fates host connected now qs b) := by
  induction qs generalizing b with
  | nil => exact (List.append_nil _).symm
  | cons q qs ih =>
    rw [List.foldl_cons, ih, fates, inboxed_cons, ← List.append_assoc]
    congr 1
    rw [routeOne_eq]
    exact inbox_meet q _ _

theorem queue_foldl (qs : List Queued) (b : Broker σ) :
    (qs.foldl (routeOne host connected now) b).queue =
      b.queue ++ kept (fates host connected now qs b) := by
  induction qs generalizing b with
  | nil => exact (List.append_nil _).symm
  | cons q qs ih =>
    rw [List.foldl_cons, ih, fates, kept_cons, ← List.append_assoc]
    congr 1
    rw [routeOne_eq]
    exact queue_meet q _ _

/-- What stays in the queue keeps its order. -/
theorem kept_sublist (qs : List Queued) (b : Broker σ) :
    (kept (fates host connected now qs b)).Sublist qs := by
  have hsublist := (List.filter_sublist (p := fun entry => entry.2 = Fate.kept)
    (l := fates host connected now qs b)).map Prod.fst
  rw [map_fst_fates] at hsublist
  exact hsublist

end Pass

/-! ## What is sent -/

/-- The frames among some offers that are for the worker of a connection. -/
def framesFor (b : Broker σ) (id : StreamId) (os : List (WorkerId × Bytes)) : Bytes :=
  (os.filter fun o => b.peers.find? o.1 = some id).flatMap fun o => o.2

theorem framesFor_append (b : Broker σ) (id : StreamId) (os os' : List (WorkerId × Bytes)) :
    b.framesFor id (os ++ os') = b.framesFor id os ++ b.framesFor id os' := by
  unfold framesFor
  rw [List.filter_append, List.flatMap_append]

theorem framesFor_single (b : Broker σ) (id : StreamId) (uid : WorkerId) (frame : Bytes) :
    b.framesFor id [(uid, frame)] = if b.peers.find? uid = some id then frame else [] := by
  by_cases h : b.peers.find? uid = some id
  · simp [framesFor, h]
  · simp [framesFor, h]

/-- Offers of one frame. -/
theorem carries_deliverAll {b₀ b : Broker (σ × Tape)} (hthins : Thins b₀ b)
    (hkeyed : b.selector.Keyed) (frame : Bytes) (uids : List WorkerId) (id : StreamId) :
    Carries id (b₀.framesFor id (uids.map fun uid => (uid, frame))) b
      (uids.foldl (deliver host.taped frame) b) := by
  induction uids generalizing b with
  | nil => exact Carries.refl id b
  | cons uid uids ih =>
    have hmoves : Thins b (deliver host.taped frame b uid) := (moves_deliver frame b uid).thins
    rw [List.map_cons, ← List.singleton_append, framesFor_append, framesFor_single]
    refine Carries.trans (Carries.congr (carries_deliver hkeyed frame uid id) ?_)
      (ih (hthins.trans hmoves) (hmoves.keyed hkeyed))
    intro peer hpeer
    -- a connection that is left has kept its place in the table
    have hplace : b.peers.find? uid = some id ↔ b₀.peers.find? uid = some id :=
      ⟨hthins.peers, (hthins.key hpeer).2.2⟩
    simp only [hplace]

theorem carries_meet {b₀ b : Broker (σ × Tape)} (hthins : Thins b₀ b) (hkeyed : b.selector.Keyed)
    (q : Queued) (fate : Fate) (id : StreamId) :
    Carries id (b₀.framesFor id (offers [(q, fate)])) b (meet host.taped q b fate) := by
  cases fate with
  | offered uids =>
    rw [offers, offers, List.append_nil]
    exact carries_deliverAll hthins hkeyed _ uids id
  | inbox | kept | expired | unknown => exact .of_took (fun _ h => h) rfl

theorem offers_cons (entry : Queued × Fate) (log : List (Queued × Fate)) :
    offers (entry :: log) = offers [entry] ++ offers log := by
  obtain ⟨q, fate⟩ := entry
  cases fate with
  | offered uids => rw [offers, offers, offers, List.append_nil]
  | inbox | kept | expired | unknown => rfl

theorem carries_foldl (host : Host σ) (connected : List WorkerId) (now : Duration)
    {b₀ b : Broker (σ × Tape)} (hthins : Thins b₀ b) (hkeyed : b.selector.Keyed)
    (qs : List Queued) (id : StreamId) :
    Carries id (b₀.framesFor id (offers (fates host.taped connected now qs b))) b
      (qs.foldl (routeOne host.taped connected now) b) := by
  induction qs generalizing b with
  | nil => exact Carries.refl id b
  | cons q qs ih =>
    have hone := thins_routeOne host.taped connected now b q
    rw [List.foldl_cons, fates, offers_cons, framesFor_append]
    refine Carries.trans ?_ (ih (hthins.trans hone) (hone.keyed hkeyed))
    let rolled : Broker (σ × Tape) := { b with world := (host.taped.roll b.world).2 }
    have hroll : Carries id [] b rolled := .of_took (fun _ h => h) rfl
    have hrolled : Thins b rolled := .of_eq rfl rfl rfl
    rw [routeOne_eq]
    exact hroll.trans (carries_meet (hthins.trans hrolled) hkeyed q _ id)

/-! ## The pass -/

theorem queue_enforceBound (b : Broker σ) :
    b.enforceBound.queue = newest b.requeue.maxQueued b.queue :=
  rfl

theorem route_of_queue_nil {b : Broker σ} (h : b.queue = []) : b.route host = b := by
  unfold route
  rw [h]
  rfl

theorem route_of_queue_ne_nil {b : Broker σ} (h : b.queue ≠ []) :
    b.route host = enforceBound (b.queue.foldl
      (routeOne host b.connected (host.clock b.world)) { b with queue := [] }) := by
  unfold route
  rw [if_neg]
  rwa [List.isEmpty_iff]

theorem inbox_route (b : Broker σ) :
    (b.route host).inbox = b.inbox ++ inboxed (b.passFates host) := by
  by_cases hqueue : b.queue = []
  · rw [route_of_queue_nil hqueue, passFates, hqueue]
    exact (List.append_nil _).symm
  · rw [route_of_queue_ne_nil hqueue]
    exact inbox_foldl host _ _ _ _

theorem queue_route (b : Broker σ) :
    (b.route host).queue = newest b.requeue.maxQueued (kept (b.passFates host)) := by
  by_cases hqueue : b.queue = []
  · rw [route_of_queue_nil hqueue, passFates, hqueue]
    exact (List.drop_nil).symm
  · rw [route_of_queue_ne_nil hqueue, queue_enforceBound, requeue_foldl, queue_foldl]
    rfl

theorem carries_route {b : Broker (σ × Tape)} (hkeyed : b.selector.Keyed) (id : StreamId) :
    Carries id (b.framesFor id (offers (b.passFates host.taped))) b (b.route host.taped) := by
  by_cases hqueue : b.queue = []
  · rw [route_of_queue_nil hqueue, passFates, hqueue]
    exact Carries.refl id b
  · rw [route_of_queue_ne_nil hqueue]
    let emptied : Broker (σ × Tape) := { b with queue := [] }
    have hemptied : Carries id [] b emptied := .of_took (fun _ h => h) rfl
    have hthins : Thins b emptied := .of_eq rfl rfl rfl
    have hall := carries_foldl host b.connected (host.clock b.world.1) hthins hkeyed
      b.queue id
    have hbound : ∀ routed : Broker (σ × Tape), Carries id [] routed routed.enforceBound :=
      fun _ => .of_took (fun _ h => h) rfl
    have hrouted := (hemptied.trans hall).trans (hbound _)
    rw [List.nil_append, List.append_nil] at hrouted
    exact hrouted

theorem mem_kept {log : List (Queued × Fate)} {q : Queued} :
    q ∈ kept log ↔ (q, Fate.kept) ∈ log := by
  unfold kept
  simp

theorem fate_eq_kept {d : Delivery} {ttl age : Duration} :
    d.fate ttl age = .kept ↔ d = .requeue ∧ age < ttl := by
  cases d with
  | requeue =>
    unfold Delivery.fate
    dsimp only
    split
    · rename_i hage
      exact ⟨(nomatch ·), fun h => absurd h.2 (Nat.not_lt.mpr hage)⟩
    · rename_i hage
      exact ⟨fun _ => ⟨rfl, Nat.lt_of_not_le hage⟩, fun _ => rfl⟩
  | atHome | recipients | drop => exact ⟨(nomatch ·), (nomatch ·.1)⟩

/-- What the law lets wait is for any worker or for some number of them. -/
theorem audience_of_requeue {e : Envelope} {connected : List WorkerId}
    (h : Routed e connected .requeue) : e.audience = .any ∨ e.audience = .amount := by
  cases h with
  | anyWaits haudience _ => exact Or.inl haudience
  | amountWaits haudience _ => exact Or.inr haudience

theorem routed_of_mem_passFates {b : Broker σ} {entry : Queued × Fate}
    (h : entry ∈ b.passFates host) : ∃ d, Routed entry.1.envelope b.connected d ∧
      entry.2 = d.fate b.requeue.ttl (host.clock b.world - entry.1.since) := by
  have hrouted := routed_of_mem_fates host b.connected (host.clock b.world) b.peers.nodup_keys h
  exact hrouted

theorem waiting_route {b : Broker σ} {q : Queued} (h : q ∈ (b.route host).queue) :
    (q.envelope.audience = .any ∨ q.envelope.audience = .amount) ∧
      host.clock b.world - q.since < b.requeue.ttl := by
  rw [queue_route] at h
  have hkept := mem_kept.mp ((List.drop_subset _ _) h)
  obtain ⟨d, hrouted, hfate⟩ := routed_of_mem_passFates hkept
  obtain ⟨rfl, hage⟩ := fate_eq_kept.mp hfate.symm
  exact ⟨audience_of_requeue hrouted, hage⟩

theorem queue_route_sublist (b : Broker σ) : (b.route host).queue.Sublist b.queue := by
  rw [queue_route]
  exact (List.drop_sublist _ _).trans (kept_sublist host _ _ _ _)

end Broker

end Supervisor.Bus
