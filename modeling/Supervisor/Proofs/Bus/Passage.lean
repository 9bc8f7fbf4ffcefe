import Supervisor.Proofs.Bus.Identity
import Supervisor.Proofs.Bus.Ledger
import Supervisor.Proofs.Bus.Link

/-!
# From worker to worker

Envelopes that one worker sends to another keep their order on the way: from the
client of the sender through the bus to the client of the receiver.

* What is meant.  `aimed src dst` picks out what worker `src` addresses to worker
  `dst`, alone or among all; `drawn` what goes to recipients picked at random.
* The queue.  A routing pass hands on all that is aimed at a worker that is
  connected, in the order of the queue (`handles_route`).
* The bus.  `Conveys` relates the bytes of the sender's stream, the queue, and the
  mail of the receiver.  Every phase keeps it (`Conveys.handles`, `Conveys.read`),
  and so does a course (`Course.conveys`), if the bus is `Serving` both workers.
* The whole way.  A `Passage` is a session of the sender, a course of the bus and a
  session of the receiver, tied together by the bytes of the two streams.
  `per_recipient_order` says what the receiver gets of what the sender sent.
-/

namespace Supervisor.Bus

open Poll (Host Traced)
open Wire (Bytes FrameBuffer ReadEvent frame pack unpack handshake parseHandshake)

/-! ## Who is meant -/

/-- Whether an envelope is from worker `src` and for worker `dst`, alone or among all. -/
def aimed (src dst : WorkerId) (e : Envelope) : Bool :=
  decide (e.sender = src ∧ (e.audience = .all ∨ (e.audience = .selected ∧ e.number = dst.val)))

/-- Whether the recipients of an envelope are picked at random. -/
def drawn (e : Envelope) : Bool :=
  decide (e.audience = .any ∨ e.audience = .amount)

theorem aimed_eq_true {src dst : WorkerId} {e : Envelope} : aimed src dst e = true ↔
    e.sender = src ∧ (e.audience = .all ∨ (e.audience = .selected ∧ e.number = dst.val)) :=
  decide_eq_true_iff

theorem drawn_eq_true {e : Envelope} :
    drawn e = true ↔ e.audience = .any ∨ e.audience = .amount :=
  decide_eq_true_iff

theorem aimed_of_sender_ne {src dst : WorkerId} {e : Envelope} (h : e.sender ≠ src) :
    aimed src dst e = false :=
  Bool.eq_false_iff.mpr fun haimed => h (aimed_eq_true.mp haimed).1

theorem aimed_of_drawn {src dst : WorkerId} {e : Envelope} (h : drawn e = true) :
    aimed src dst e = false := by
  refine Bool.eq_false_iff.mpr fun haimed => ?_
  rcases drawn_eq_true.mp h with hany | hamount
  · rcases (aimed_eq_true.mp haimed).2 with hall | ⟨hselected, _⟩
    · cases hany.symm.trans hall
    · cases hany.symm.trans hselected
  · rcases (aimed_eq_true.mp haimed).2 with hall | ⟨hselected, _⟩
    · cases hamount.symm.trans hall
    · cases hamount.symm.trans hselected

theorem filter_aimed_of_others {src dst : WorkerId} {es : List Envelope}
    (h : ∀ e ∈ es, e.sender ≠ src) : es.filter (aimed src dst) = [] :=
  List.filter_eq_nil_iff.mpr fun e he => Bool.eq_false_iff.mp (aimed_of_sender_ne (h e he))

theorem filter_aimed_of_drawn {src dst : WorkerId} {es : List Envelope}
    (h : ∀ e ∈ es, drawn e = true) : es.filter (aimed src dst) = [] :=
  List.filter_eq_nil_iff.mpr fun e he => Bool.eq_false_iff.mp (aimed_of_drawn (h e he))

/-- The envelopes in the queue. -/
def envelopesOf (queue : List Queued) : List Envelope :=
  queue.map (·.envelope)

theorem mem_envelopesOf {queue : List Queued} {e : Envelope} :
    e ∈ envelopesOf queue ↔ ∃ q ∈ queue, q.envelope = e :=
  List.mem_map

/-- What worker `src` sent to worker `dst` leaves the queue in its order, as mail. -/
structure Handles (src dst : WorkerId) (queue : List Queued) (mail : List Envelope)
    (queue' : List Queued) : Prop where
  order : mail.filter (aimed src dst) ++ (envelopesOf queue').filter (aimed src dst) =
    (envelopesOf queue).filter (aimed src dst)
  waiting : ∀ e ∈ envelopesOf queue', e.sender = src → e ∈ envelopesOf queue
  mailed : ∀ e ∈ mail, e.sender = src →
    e ∈ envelopesOf queue ∧ (aimed src dst e = true ∨ drawn e = true)

/-- Envelopes of others make no difference. -/
theorem handles_append {src dst : WorkerId} {queue fresh : List Queued}
    (h : ∀ q ∈ fresh, q.envelope.sender ≠ src) : Handles src dst queue [] (queue ++ fresh) := by
  have hothers : ∀ e ∈ envelopesOf fresh, e.sender ≠ src := by
    intro e he
    obtain ⟨q, hq, rfl⟩ := mem_envelopesOf.mp he
    exact h q hq
  have hsplit : envelopesOf (queue ++ fresh) = envelopesOf queue ++ envelopesOf fresh :=
    List.map_append
  refine ⟨?_, fun e he hsender => ?_, fun _ he => (nomatch he)⟩
  · rw [hsplit, List.filter_append, filter_aimed_of_others hothers, List.append_nil]
    rfl
  · rw [hsplit] at he
    rcases List.mem_append.mp he with he | he
    · exact he
    · exact absurd hsender (hothers e he)

namespace Broker

variable {σ : Type} {host : Host σ} {b : Broker σ}

/-! ## A routing pass -/

/-- What a pass hands to a connection was offered to its worker. -/
theorem mem_passMail {id : StreamId} {fates : List (Queued × Fate)} {e : Envelope}
    (h : e ∈ b.passMail id fates) : ∃ q uids uid, (q, Fate.offered uids) ∈ fates ∧
      q.envelope = e ∧ uid ∈ uids ∧ b.peers.find? uid = some id := by
  obtain ⟨⟨q, fate⟩, hentry, hmem⟩ := List.mem_flatMap.mp h
  cases fate with
  | offered uids =>
    obtain ⟨uid, huid, rfl⟩ := List.mem_map.mp hmem
    obtain ⟨huid, hid⟩ := List.mem_filter.mp huid
    exact ⟨q, uids, uid, hentry, rfl, huid, of_decide_eq_true hid⟩
  | inbox | kept | expired | unknown => cases hmem

theorem mem_queue_of_mem_passFates {entry : Queued × Fate} (h : entry ∈ b.passFates host) :
    entry.1 ∈ b.queue := by
  have hfst := List.mem_map_of_mem (f := Prod.fst) h
  rwa [passFates, map_fst_fates] at hfst

/-- Among different workers, one has the connection. -/
theorem filter_peer {dst : WorkerId} {id : StreamId} (hunshared : b.Unshared)
    (hid : b.peers.find? dst = some id) {uids : List WorkerId} (hnodup : uids.Nodup)
    (hmem : dst ∈ uids) : uids.filter (fun uid => b.peers.find? uid = some id) = [dst] := by
  have hsame : ∀ uid, decide (b.peers.find? uid = some id) = (uid == dst) := by
    intro uid
    rw [Bool.eq_iff_iff, decide_eq_true_iff, beq_iff_eq]
    exact ⟨fun h => hunshared uid dst id h hid, fun h => h ▸ hid⟩
  simp only [hsame]
  rw [List.filter_beq, List.count_eq_one_of_mem hnodup hmem]
  rfl

/-- The copies of one envelope that a pass hands to a connection: one if the
envelope is for its worker. -/
theorem passMail_aimed {src dst : WorkerId} {id : StreamId} (hne : src ≠ dst)
    (hunshared : b.Unshared) (hserver : b.peers.find? WorkerId.server = none)
    (hid : b.peers.find? dst = some id) {entry : Queued × Fate}
    (hentry : entry ∈ b.passFates host) :
    (b.passMail id [entry]).filter (aimed src dst) =
      [entry.1.envelope].filter (aimed src dst) := by
  obtain ⟨q, fate⟩ := entry
  obtain ⟨d, hrouted, hfate⟩ := routed_of_mem_passFates hentry
  dsimp only at hrouted hfate ⊢
  have hconnected : dst ∈ b.connected := mem_connected.mpr ⟨id, hid⟩
  have hnotServer : dst ≠ WorkerId.server := by
    rintro rfl
    cases hserver.symm.trans hid
  have hcopies : ∀ e ∈ b.passMail id [(q, fate)], e = q.envelope := by
    intro e he
    obtain ⟨q', _, _, hmem, rfl, _⟩ := mem_passMail he
    cases List.mem_singleton.mp hmem
    rfl
  cases haimed : aimed src dst q.envelope with
  | false =>
    have hnone : (b.passMail id [(q, fate)]).filter (aimed src dst) = [] := by
      rw [List.filter_eq_nil_iff]
      intro e he
      rw [hcopies e he, haimed]
      exact Bool.false_ne_true
    rw [hnone, List.filter_cons_of_neg (by rw [haimed]; exact Bool.false_ne_true)]
    rfl
  | true =>
    have hone : ∀ uids : List WorkerId, fate = .offered uids → uids.Nodup → dst ∈ uids →
        b.passMail id [(q, fate)] = [q.envelope] := by
      rintro uids rfl hnodup hmem
      show ((uids.filter fun uid => b.peers.find? uid = some id).map fun _ => q.envelope) ++ [] = _
      rw [filter_peer hunshared hid hnodup hmem]
      rfl
    have hmail : b.passMail id [(q, fate)] = [q.envelope] := by
      obtain ⟨hsender, haudience⟩ := aimed_eq_true.mp haimed
      have hdst : q.envelope.audience ≠ .all → (⟨q.envelope.number⟩ : WorkerId) = dst := by
        intro hall
        rcases haudience with h | ⟨_, hnumber⟩
        · exact absurd h hall
        · exact Id.ext_val hnumber
      cases hrouted with
      | all _ =>
        refine hone _ hfate (nodup_others _ b.peers.nodup_keys) ?_
        exact (mem_others b.peers.nodup_keys).mpr ⟨hconnected, hsender ▸ hne.symm, hnotServer⟩
      | selected h _ _ =>
        rw [hdst (by rw [h]; exact fun h => nomatch h)] at hfate
        exact hone _ hfate (List.nodup_singleton dst) (List.mem_singleton_self dst)
      | selectedHome h hzero =>
        have hval := congrArg Id.val (hdst (by rw [h]; exact fun h => nomatch h))
        exact absurd (Id.ext_val (hval.symm.trans hzero)) hnotServer
      | selectedGone h _ hgone =>
        rw [hdst (by rw [h]; exact fun h => nomatch h)] at hgone
        exact absurd hconnected hgone
      | any h _ | anyWaits h _ =>
        cases haimed.symm.trans (aimed_of_drawn (drawn_eq_true.mpr (Or.inl h)))
      | amount h _ _ _ | amountWaits h _ =>
        cases haimed.symm.trans (aimed_of_drawn (drawn_eq_true.mpr (Or.inr h)))
      | home h =>
        rcases haudience with hall | ⟨hselected, _⟩
        · rw [hall] at h
          rcases h with h | h <;> cases h
        · rw [hselected] at h
          rcases h with h | h <;> cases h
    rw [hmail]

/-- What is offered to a worker is for it, or it was picked at random. -/
theorem aimed_of_mem_passMail {src dst : WorkerId} {id : StreamId} (hunshared : b.Unshared)
    (hid : b.peers.find? dst = some id) {e : Envelope} (h : e ∈ b.passMail id (b.passFates host))
    (hsender : e.sender = src) : aimed src dst e = true ∨ drawn e = true := by
  obtain ⟨q, uids, uid, hentry, rfl, huid, hpeer⟩ := mem_passMail h
  cases hunshared uid dst id hpeer hid
  obtain ⟨d, hrouted, hfate⟩ := routed_of_mem_passFates hentry
  dsimp only at hrouted hfate
  cases hrouted with
  | all haudience => exact Or.inl (aimed_eq_true.mpr ⟨hsender, Or.inl haudience⟩)
  | any haudience _ => exact Or.inr (drawn_eq_true.mpr (Or.inl haudience))
  | amount haudience _ _ _ => exact Or.inr (drawn_eq_true.mpr (Or.inr haudience))
  | selected haudience _ _ =>
    cases hfate
    cases List.mem_singleton.mp huid
    exact Or.inl (aimed_eq_true.mpr ⟨hsender, Or.inr ⟨haudience, rfl⟩⟩)
  | anyWaits | amountWaits =>
    unfold Delivery.fate at hfate
    dsimp only at hfate
    split at hfate
    · cases hfate
    · cases hfate
  | selectedHome | selectedGone | home => cases hfate

/-- A pass hands on all that it finds for a worker that is connected. -/
theorem handles_route {src dst : WorkerId} {id : StreamId} (hne : src ≠ dst) (hsound : Sound b)
    (h : b.peers.find? dst = some id ∨ ∀ q ∈ b.queue, q.envelope.sender ≠ src) :
    Handles src dst b.queue (b.passMail id (b.passFates host)) (b.route host).queue := by
  have hmail : ∀ e ∈ b.passMail id (b.passFates host), e ∈ envelopesOf b.queue := by
    intro e he
    obtain ⟨q, _, _, hentry, rfl, _⟩ := mem_passMail he
    exact List.mem_map_of_mem (mem_queue_of_mem_passFates hentry)
  have hwaiting : ∀ e ∈ envelopesOf (b.route host).queue, e ∈ envelopesOf b.queue := by
    intro e he
    obtain ⟨q, hq, rfl⟩ := mem_envelopesOf.mp he
    exact List.mem_map_of_mem ((queue_route_sublist b).subset hq)
  have hleft : (envelopesOf (b.route host).queue).filter (aimed src dst) = [] := by
    refine filter_aimed_of_drawn fun e he => ?_
    obtain ⟨q, hq, rfl⟩ := mem_envelopesOf.mp he
    exact drawn_eq_true.mpr (waiting_route hq).1
  rcases h with hid | hothers
  · refine ⟨?_, fun e he _ => hwaiting e he, fun e he hsender =>
      ⟨hmail e he, aimed_of_mem_passMail hsound.unshared hid he hsender⟩⟩
    rw [hleft, List.append_nil]
    have hentries : ∀ fates, fates ⊆ b.passFates host →
        (b.passMail id fates).filter (aimed src dst) =
          (envelopesOf (fates.map Prod.fst)).filter (aimed src dst) := by
      intro fates hfates
      induction fates with
      | nil => rfl
      | cons entry fates ih =>
        obtain ⟨hentry, hrest⟩ := List.cons_subset.mp hfates
        rw [passMail_cons, List.filter_append, ih hrest,
          passMail_aimed hne hsound.unshared hsound.noServer hid hentry, ← List.filter_append]
        rfl
    rw [hentries _ (List.Subset.refl _), passFates, map_fst_fates]
  · have hnobody : ∀ e ∈ envelopesOf b.queue, e.sender ≠ src := by
      intro e he
      obtain ⟨q, hq, rfl⟩ := mem_envelopesOf.mp he
      exact hothers q hq
    refine ⟨?_, fun e he _ => hwaiting e he, fun e he hsender => ?_⟩
    · rw [hleft, filter_aimed_of_others hnobody,
        filter_aimed_of_others fun e he => hnobody e (hmail e he)]
      rfl
    · exact absurd hsender (hnobody e (hmail e he))

/-! ## What phases do besides -/

/-- The envelopes that a phase adds to the queue. -/
def arriving (host : Host σ) (b : Broker σ) : Phase → List Queued
  | .read id => b.read host id
  | .submit e => [⟨e, host.clock b.world⟩]
  | _ => []

/-! ## From the stream of one worker to the mail of another -/

variable {src dst : WorkerId} {up down : StreamId}

/-- Of what worker `src` wrote to the stream `up`, the envelopes `vs` have come
so far.  What was aimed at worker `dst` among them is mail, or is in the queue
behind it. -/
structure Conveys (src dst : WorkerId) (up : StreamId) (mail vs : List Envelope)
    (b : Broker (Traced σ)) : Prop where
  begun : vs = [] ∨ handshake src ++ vs.flatMap frame <+: b.heard up
  parsed : ∀ peer, b.peer? up = some peer → peer.uid ≠ none →
    b.heard up = handshake src ++ vs.flatMap frame ++ peer.reader.unparsed
  order : mail.filter (aimed src dst) ++ (envelopesOf b.queue).filter (aimed src dst) =
    vs.filter (aimed src dst)
  waiting : ∀ e ∈ envelopesOf b.queue, e.sender = src → e ∈ vs
  mailed : ∀ e ∈ mail, e.sender = src → e ∈ vs ∧ (aimed src dst e = true ∨ drawn e = true)

/-- A phase that reads nothing from the stream conveys what it hands on. -/
theorem Conveys.handles {mail more vs : List Envelope} {b b' : Broker (Traced σ)}
    (h : Conveys src dst up mail vs b) (hhandles : Handles src dst b.queue more b'.queue)
    (hheard : b'.heard up = b.heard up)
    (hpeer : ∀ peer', b'.peer? up = some peer' → peer'.uid ≠ none →
      ∃ peer, b.peer? up = some peer ∧ identity .none peer' = identity .none peer) :
    Conveys src dst up (mail ++ more) vs b' where
  begun := hheard.symm ▸ h.begun
  parsed peer' hpeer' huid' := by
    obtain ⟨peer, hfound, hsame⟩ := hpeer peer' hpeer' huid'
    obtain ⟨huid, hreader⟩ := Prod.mk.inj hsame
    rw [hheard, h.parsed peer hfound (huid ▸ huid'), hreader]
  order := by
    rw [List.filter_append, List.append_assoc, hhandles.order, h.order]
  waiting e he hsender := h.waiting e (hhandles.waiting e he hsender) hsender
  mailed e he hsender := by
    rcases List.mem_append.mp he with he | he
    · exact h.mailed e he hsender
    · obtain ⟨hqueue, haimed⟩ := hhandles.mailed e he hsender
      exact ⟨h.waiting e hqueue hsender, haimed⟩

/-- Envelopes that came are conveyed as soon as they are in the queue. -/
theorem Conveys.take {mail vs taken : List Envelope} {rest : Bytes} {b b' : Broker (Traced σ)}
    (h : Conveys src dst up mail vs b)
    (hqueue : envelopesOf b'.queue = envelopesOf b.queue ++ taken)
    (hheard : b'.heard up = handshake src ++ (vs ++ taken).flatMap frame ++ rest)
    (hrest : ∀ peer', b'.peer? up = some peer' → peer'.reader.unparsed = rest) :
    Conveys src dst up mail (vs ++ taken) b' where
  begun := Or.inr (hheard ▸ List.prefix_append _ _)
  parsed peer' hpeer' _ := by rw [hheard, hrest peer' hpeer']
  order := by rw [hqueue, List.filter_append, ← List.append_assoc, h.order, List.filter_append]
  waiting e he hsender := by
    rw [hqueue] at he
    rcases List.mem_append.mp he with he | he
    · exact List.mem_append_left _ (h.waiting e he hsender)
    · exact List.mem_append_right _ he
  mailed e he hsender := by
    obtain ⟨hmem, haimed⟩ := h.mailed e he hsender
    exact ⟨List.mem_append_left _ hmem, haimed⟩

/-- What is unparsed of a connection after it was greeted comes behind the
handshake and the envelopes that have come before. -/
theorem unparsed_of_greet {bytes more tail : Bytes} {vs : List Envelope} {peer greeted : Peer}
    {b : Broker σ} {id : StreamId} (h : Introduced bytes peer)
    (hstream : bytes ++ more <+: handshake src ++ tail)
    (hstranger : peer.uid = none → vs = [])
    (hparsed : peer.uid ≠ none → bytes = handshake src ++ vs.flatMap frame ++ peer.reader.unparsed)
    (hgreet : (b.greet host id { peer with reader := peer.reader.feed more }).1 = some greeted)
    (hgreeted : greeted.uid ≠ none) :
    greeted.uid = some src ∧
      bytes ++ more = handshake src ++ vs.flatMap frame ++ greeted.reader.unparsed := by
  have hintro := h.greet hgreet
  obtain ⟨uid, huid⟩ := Option.ne_none_iff_exists'.mp hgreeted
  obtain ⟨_, length, hparse⟩ := hintro.worker huid
  -- the handshake that was found is the one of the stream
  have hwhole := Wire.parseHandshake_append hparse (hstream.choose)
  rw [hstream.choose_spec, Wire.parseHandshake_handshake] at hwhole
  cases hwhole
  refine ⟨huid, ?_⟩
  rcases Broker.greet_cases host b id { peer with reader := peer.reader.feed more }
    with ⟨heq, _⟩ | ⟨heq, _⟩ | ⟨uid', length', hparse', hnone, _, heq⟩
  · rw [heq] at hgreet
    cases hgreet
    rw [hparsed hgreeted, h.tidy.unparsed_feed, List.append_assoc _ peer.reader.unparsed]
  · rw [heq] at hgreet
    cases hgreet
  · rw [heq] at hgreet
    cases hgreet
    have hunparsed : (peer.reader.feed more).unparsed = bytes ++ more := by
      rw [h.tidy.unparsed_feed, (h.stranger hnone).1]
    rw [hunparsed] at hparse'
    cases hparse.symm.trans hparse'
    have hbegun : handshake src <+: bytes ++ more :=
      List.prefix_of_prefix_length_le (List.prefix_append _ tail) hstream
        (Wire.length_le_of_parseHandshake hparse)
    obtain ⟨rest, hrest⟩ := hbegun
    rw [FrameBuffer.unparsed_consume, hunparsed, ← hrest, List.drop_left, hstranger hnone]
    simp

/-- Frames of the worker itself hold what it packed. -/
theorem envelopes_map_pack {es : List Envelope}
    (h : ∀ e ∈ es, e.sender = src ∧ e.message.Addressable) : envelopes src (es.map pack) = es := by
  induction es with
  | nil => rfl
  | cons e es ih =>
    obtain ⟨hsender, haddressable⟩ := h e List.mem_cons_self
    have hrest := ih fun e' he' => h e' (List.mem_cons_of_mem e he')
    unfold envelopes at hrest ⊢
    rw [List.map_cons, List.filterMap_cons, (Envelope.faithful haddressable).unpack_pack, hrest]
    dsimp only
    rw [← hsender]

/-- A read that takes nothing in leaves the queue and the mail as they are. -/
theorem Conveys.idle {mail vs : List Envelope} {b b' : Broker (Traced σ)}
    (h : Conveys src dst up mail vs b) (hqueue : b'.queue = b.queue)
    (hgrown : b.heard up <+: b'.heard up)
    (hparsed : ∀ peer', b'.peer? up = some peer' → peer'.uid ≠ none →
      b'.heard up = handshake src ++ vs.flatMap frame ++ peer'.reader.unparsed) :
    Conveys src dst up mail vs b' where
  begun := h.begun.imp_right fun hbegun => hbegun.trans hgrown
  parsed := hparsed
  order := hqueue ▸ h.order
  waiting := hqueue ▸ h.waiting
  mailed := h.mailed

/-- As long as the connection has not said who it is, nothing came. -/
theorem Conveys.stranger {mail vs : List Envelope} {b : Broker (Traced σ)} {peer : Peer}
    (h : Conveys src dst up mail vs b) (hintro : Introduced (b.heard up) peer)
    (hnone : peer.uid = none) : vs = [] := by
  refine h.begun.resolve_right fun ⟨later, hlater⟩ => ?_
  have hparse := (hintro.stranger hnone).2
  rw [← hlater, List.append_assoc, Wire.parseHandshake_handshake] at hparse
  cases hparse

/-- What is taken from a connection of worker `src` are the next of its envelopes. -/
theorem fresh_of_greeted (host : Host σ) (b : Broker σ) {greeted : Peer} {vs rest : List Envelope}
    {bytes : Bytes} (htidy : greeted.reader.Tidy) (hsrc : greeted.uid = some src)
    (hall : bytes = handshake src ++ vs.flatMap frame ++ greeted.reader.unparsed)
    (hbytes : bytes <+: handshake src ++ (vs ++ rest).flatMap frame)
    (hrest : ∀ e ∈ rest, e.sender = src ∧ e.message.Addressable) :
    ∃ taken left, rest = taken ++ left ∧ envelopesOf (b.fresh host greeted) = taken ∧
      bytes = handshake src ++ (vs ++ taken).flatMap frame ++
        (drained greeted).reader.unparsed := by
  have hfollows : greeted.reader.Follows rest := by
    refine ⟨htidy, ?_⟩
    rw [hall, List.flatMap_append, List.append_assoc, List.prefix_append_right_inj,
      List.prefix_append_right_inj] at hbytes
    exact hbytes
  obtain ⟨taken, left, rfl, hpayloads, hleft, _⟩ := hfollows.drain
  refine ⟨taken, left, rfl, ?_, ?_⟩
  · rw [fresh, hsrc, hpayloads]
    dsimp only
    rw [envelopes_map_pack fun e he => hrest e (List.mem_append_left left he), envelopesOf,
      List.map_map]
    exact List.map_id taken
  · rw [hall, hleft, List.flatMap_append]
    simp only [List.append_assoc]
    rfl

/-- Reading the stream conveys what of the next envelopes is complete. -/
theorem Conveys.read {mail passed vs : List Envelope} {b : Broker (Traced σ)}
    (h : Conveys src dst up mail vs b) (hkeyed : b.selector.Keyed)
    (hintro : ∀ peer, b.peer? up = some peer → Introduced (b.heard up) peer)
    (hpassed : ∀ e ∈ passed, e.sender = src ∧ e.message.Addressable) (hvs : vs <+: passed)
    (hbytes : (b.readPeer host.traced up).heard up <+: handshake src ++ passed.flatMap frame)
    (hspared : (b.readPeer host.traced up).queue = b.queue ++ b.read host.traced up) :
    ∃ vs', vs' <+: passed ∧ Conveys src dst up mail vs' (b.readPeer host.traced up) := by
  have hgrown : b.heard up <+: (b.readPeer host.traced up).heard up :=
    (heard_run host hkeyed (.read up) up).1
  rcases readPeer_cases host.traced b up with ⟨hnone, heq⟩ | ⟨key, peer, hkey, hpeer, _⟩
  · rw [heq]
    exact ⟨vs, hvs, h⟩
  have hattached : b.peer? up = some peer := peer?_eq_some.mpr ⟨key, hkey, hpeer⟩
  have hread : b.read host.traced up = _ := read_eq hkey hpeer
  let heard := b.hear host.traced up key peer
  have hafter : ∀ peer', (b.readPeer host.traced up).peer? up = some peer' →
      ∃ greeted, (heard.2.greet host.traced up heard.1).1 = some greeted ∧
        peer' = if greeted.uid = none then greeted else drained greeted := by
    intro peer' hpeer'
    rcases peer?_readPeer hkey hpeer hpeer' with ⟨hne, _⟩ | ⟨_, hgreeted⟩
    · exact absurd rfl hne
    · exact hgreeted
  cases hgreeted : (heard.2.greet host.traced up heard.1).1 with
  | none =>
    -- the connection was dropped
    rw [hread, hgreeted, List.append_nil] at hspared
    refine ⟨vs, hvs, h.idle hspared hgrown fun peer' hpeer' _ => ?_⟩
    obtain ⟨_, hsome, _⟩ := hafter peer' hpeer'
    cases hgreeted.symm.trans hsome
  | some greeted =>
    rw [hgreeted] at hread
    dsimp only at hread
    by_cases huid : greeted.uid = none
    · -- its handshake is not complete
      have hfresh : b.read host.traced up = [] := by
        rw [hread, fresh, huid]
      rw [hfresh, List.append_nil] at hspared
      refine ⟨vs, hvs, h.idle hspared hgrown fun peer' hpeer' huid' => ?_⟩
      obtain ⟨_, hsome, heq⟩ := hafter peer' hpeer'
      cases hgreeted.symm.trans hsome
      rw [if_pos huid] at heq
      exact absurd (heq ▸ huid) huid'
    · have hmore := (tapes_readPeer host hkeyed hkey hpeer).2 up
      rw [if_pos rfl] at hmore
      have hintro' := hintro peer hattached
      obtain ⟨hsrc, hunparsed⟩ := unparsed_of_greet hintro' (hmore ▸ hbytes)
        (h.stranger hintro') (h.parsed peer hattached) hgreeted huid
      obtain ⟨rest, rfl⟩ := hvs
      obtain ⟨taken, left, rfl, hfresh, hall⟩ := fresh_of_greeted host.traced
        (heard.2.greet host.traced up heard.1).2 (hintro'.greet hgreeted).tidy hsrc
        (hmore.trans hunparsed) hbytes fun e he => hpassed e (List.mem_append_right _ he)
      have hqueue : envelopesOf (b.readPeer host.traced up).queue =
          envelopesOf b.queue ++ taken := by
        rw [hspared, hread, ← hfresh]
        exact List.map_append
      refine ⟨vs ++ taken, ⟨left, by rw [List.append_assoc]⟩, h.take hqueue hall ?_⟩
      intro peer' hpeer'
      obtain ⟨_, hsome, heq⟩ := hafter peer' hpeer'
      cases hgreeted.symm.trans hsome
      rw [if_neg huid] at heq
      exact congrArg (·.reader.unparsed) heq

/-- As long as nothing but the handshake was delivered, nothing came. -/
theorem Conveys.nothing {mail vs : List Envelope} {b : Broker (Traced σ)}
    (h : Conveys src dst up mail vs b) (hbytes : b.heard up <+: handshake src) : vs = [] := by
  refine h.begun.elim id fun hbegun => ?_
  have hlength := (hbegun.trans hbytes).length_le
  cases vs with
  | nil => rfl
  | cons e vs =>
    simp only [List.flatMap_cons, frame, List.length_append, List.length_singleton] at hlength
    omega

variable {issued : σ → StreamId → Prop} {log : List (Broker (Traced σ) × Phase)}

/-- What phases other than a pass add to the queue is not of worker `src`, unless
they read its stream. -/
theorem sender_ne_of_mem_arriving {b : Broker (Traced σ)} (hnumbers : host.Numbers issued)
    (hcourse : Course host issued log b) {p : Phase} (hp : p ≠ .read up)
    (hsingle : ∀ id ≠ up, ∀ length,
      parseHandshake ((b.run host.traced p).heard id) ≠ .ok (some (src, length)))
    (hgenuine : ∀ e, p = .submit e → e.sender ≠ src) {q : Queued}
    (hq : q ∈ b.arriving host.traced p) : q.envelope.sender ≠ src := by
  cases p with
  | read id =>
    obtain ⟨_, length, hparse⟩ := sender_of_mem_read hnumbers hcourse hq
    have hid : id ≠ up := fun h => hp (congrArg Phase.read h)
    intro hsender
    rw [hsender] at hparse
    exact hsingle id hid length hparse
  | submit e =>
    cases List.mem_singleton.mp hq
    exact hgenuine e rfl
  | accept | flush | route | takeInbox | sweep | close | select | closeStream => cases hq

/-- The bus is at the service of two workers: `src`, which writes to the stream
`up`, and `dst`, which reads from `down`. -/
structure Serving (host : Host σ) (src dst : WorkerId) (up down : StreamId)
    (log : List (Broker (Traced σ) × Phase)) (b : Broker (Traced σ)) : Prop where
  /-- No other connection says that it is worker `src`. -/
  single : ∀ id ≠ up, ∀ length, parseHandshake (b.heard id) ≠ .ok (some (src, length))
  /-- Nobody submits envelopes in the name of worker `src`. -/
  genuine : ∀ {b e}, (b, Phase.submit e) ∈ log → e.sender ≠ src
  /-- When envelopes are routed, worker `dst` is connected, unless `src` has not said
  more than who it is. -/
  ready : ∀ {b}, (b, .route) ∈ log →
    b.peers.find? dst = some down ∨ b.heard up <+: handshake src
  /-- The bound of the queue discards nothing that comes. -/
  spared : ∀ {b p}, (b, p) ∈ log → p ≠ .route →
    (b.run host.traced p).queue = b.queue ++ b.arriving host.traced p

/-- The bus was at their service before. -/
theorem Serving.before {b : Broker (Traced σ)} {p : Phase} (hkeyed : b.selector.Keyed)
    (h : Serving host src dst up down (log ++ [(b, p)]) (b.run host.traced p)) :
    Serving host src dst up down log b where
  single id hid length hparse := by
    obtain ⟨more, hmore⟩ := (heard_run host hkeyed p id).1
    exact h.single id hid length (hmore ▸ Wire.parseHandshake_append hparse more)
  genuine hentry := h.genuine (List.mem_append_left _ hentry)
  ready hentry := h.ready (List.mem_append_left _ hentry)
  spared hentry := h.spared (List.mem_append_left _ hentry)

theorem Opened.queue_eq_nil {b : Broker σ} (h : Opened host b) : b.queue = [] := by
  obtain ⟨address, requeue, s, routing, selector, s', limit, hbind, rfl⟩ := h
  unfold Routing.bind at hbind
  split at hbind
  · cases hbind
  · split at hbind
    · cases hbind
    · cases hbind
      rfl

/-- In the course of a broker, what worker `src` aims at worker `dst` becomes mail
in its order. -/
theorem Course.conveys {b : Broker (Traced σ)} (hnumbers : host.Numbers issued)
    (h : Course host issued log b) (hne : src ≠ dst) (hserving : Serving host src dst up down log b)
    {passed : List Envelope} (hpassed : ∀ e ∈ passed, e.sender = src ∧ e.message.Addressable)
    (hbytes : b.heard up <+: handshake src ++ passed.flatMap frame) :
    ∃ vs, vs <+: passed ∧ Conveys src dst up (courseMail host.traced down log) vs b := by
  induction h with
  | @begin b hbegins =>
    refine ⟨[], List.nil_prefix, Or.inl rfl, fun peer hpeer _ => ?_, ?_, ?_, fun _ he => nomatch he⟩
    · have hsound := hbegins.opened.sound
      exact absurd (hsound.1.placed hpeer) (hsound.2 up)
    · rw [hbegins.opened.queue_eq_nil]
      rfl
    · rw [hbegins.opened.queue_eq_nil]
      exact fun _ he => nomatch he
  | @phase log b p hcourse ih =>
    have hsound := (hcourse.sound hnumbers).1
    have hentry : (b, p) ∈ log ++ [(b, p)] := List.mem_append_right _ List.mem_cons_self
    have hgrown := heard_run host hsound.keyed p up
    obtain ⟨vs, hvs, hconveys⟩ := ih (hserving.before hsound.keyed) (hgrown.1.trans hbytes)
    rw [courseMail_concat]
    by_cases hread : p = .read up
    · subst hread
      have hnone : phaseMail host.traced down (b, .read up) = [] := rfl
      rw [hnone, List.append_nil]
      exact hconveys.read hsound.keyed (hcourse.introduced hnumbers up) hpassed hvs hbytes
        (hserving.spared hentry Phase.noConfusion)
    · refine ⟨vs, hvs, hconveys.handles ?_ (hgrown.2 hread) ?_⟩
      · by_cases hroute : p = .route
        · subst hroute
          refine handles_route hne hsound ((hserving.ready hentry).imp_right ?_)
          intro hshort q hq hsender
          have hmem := hconveys.waiting _ (List.mem_map_of_mem hq) hsender
          rw [hconveys.nothing hshort] at hmem
          cases hmem
        · rw [phaseMail_of_ne_route hroute, hserving.spared hentry hroute]
          exact handles_append fun q hq =>
            sender_ne_of_mem_arriving hnumbers hcourse hread hserving.single
              (fun e he => by subst he; exact hserving.genuine hentry) hq
      · intro peer' hpeer' huid'
        rcases identity_run hnumbers hread hpeer' with hsame | ⟨_, rfl⟩
        · exact hsame
        · exact absurd rfl huid'
  | outside world _ _ ih =>
    obtain ⟨vs, hvs, hconveys⟩ := ih
      ⟨hserving.single, hserving.genuine, hserving.ready, hserving.spared⟩ hbytes
    exact ⟨vs, hvs, hconveys.begun, hconveys.parsed, hconveys.order, hconveys.waiting,
      hconveys.mailed⟩

end Broker

/-! ## From worker to worker -/

theorem sender_of_mem_sent {α : Type} {host : Host α} {uid : WorkerId}
    {sent received : List Envelope} {c : Client} {s : Traced α}
    (h : Client.Session host uid sent received c s) : ∀ e ∈ sent, e.sender = uid := by
  induction h with
  | connect => exact fun _ he => nomatch he
  | send _ _ _ _ ih =>
    intro e he
    rcases List.mem_append.mp he with he | he
    · exact ih e he
    · cases List.mem_singleton.mp he
      rfl
  | receive _ _ ih => exact ih
  | flush _ ih => exact ih
  | flushBlocking _ _ ih => exact ih
  | outside _ _ ih => exact ih

/-- Two workers on one bus, over any time.  Each of the three runs on its own host,
and only the streams connect them: what a stream delivers is the beginning of what
was written to its other end, cut into reads in any way. -/
structure Passage {σ α β : Type} (host : Host σ) (issued : σ → StreamId → Prop) (srcHost : Host α)
    (dstHost : Host β) (src dst : WorkerId) where
  /-- What worker `src` sent. -/
  sent : List Envelope
  answers : List Envelope
  source : Client
  sourceWorld : Traced α
  /-- What worker `dst` received. -/
  received : List Envelope
  replies : List Envelope
  target : Client
  targetWorld : Traced β
  up : StreamId
  down : StreamId
  log : List (Broker (Traced σ) × Phase)
  bus : Broker (Traced σ)
  sending : Client.Session srcHost src sent answers source sourceWorld
  addressable : ∀ e ∈ sent, e.message.Addressable
  uphill : bus.heard up <+: sourceWorld.took source.stream
  course : Broker.Course host issued log bus
  serving : Broker.Serving host src dst up down log bus
  /-- The connection of worker `dst` is not dropped. -/
  kept : ∃ peer, bus.peer? down = some peer
  downhill : targetWorld.heard target.stream <+: bus.took down
  receiving : Client.Session dstHost dst replies received target targetWorld

namespace Passage

variable {σ α β : Type} {host : Host σ} {issued : σ → StreamId → Prop} {srcHost : Host α}
  {dstHost : Host β} {src dst : WorkerId}

/-- The mail of worker `dst` begins with what was aimed at it. -/
theorem conveys (x : Passage host issued srcHost dstHost src dst) (hnumbers : host.Numbers issued)
    (hne : src ≠ dst) : ∃ vs, vs <+: Client.posted x.sent ∧
      Broker.Conveys src dst x.up (Broker.courseMail host.traced x.down x.log) vs x.bus := by
  obtain ⟨passed, later, hposted, haccount, _⟩ := x.sending.linked.said
  have hbytes : x.bus.heard x.up <+: handshake src ++ passed.flatMap frame := by
    rw [← haccount]
    exact x.uphill.trans (List.prefix_append _ _)
  have hpassed : ∀ e ∈ passed, e.sender = src ∧ e.message.Addressable := by
    intro e he
    have hmem : e ∈ Client.posted x.sent := hposted ▸ List.mem_append_left later he
    have hsent : e ∈ x.sent := (List.mem_filter.mp hmem).1
    exact ⟨sender_of_mem_sent x.sending e hsent, x.addressable e hsent⟩
  obtain ⟨vs, hvs, hconveys⟩ := x.course.conveys hnumbers hne x.serving hpassed hbytes
  exact ⟨vs, hvs.trans (hposted ▸ List.prefix_append _ _), hconveys⟩

/-- Whatever worker `dst` received from others was in its mail. -/
theorem heeds (x : Passage host issued srcHost dstHost src dst) (hnumbers : host.Numbers issued) :
    ∃ taken, taken <+: Broker.courseMail host.traced x.down x.log ∧
      ∀ p : Envelope → Bool, (∀ e, p e = true → e.sender ≠ dst) →
        x.received.filter p = (Client.readable taken).filter p := by
  obtain ⟨peer, hpeer⟩ := x.kept
  have haccount := x.course.account hnumbers hpeer
  have hbytes : x.targetWorld.heard x.target.stream <+:
      (Broker.courseMail host.traced x.down x.log).flatMap frame := by
    rw [← haccount]
    exact x.downhill.trans (List.prefix_append _ _)
  obtain ⟨got, ⟨taken, rest, hmail, hgot, _⟩, hreceived⟩ := x.receiving.heeds _ hbytes
  refine ⟨taken, hmail ▸ List.prefix_append _ _, fun p hp => ?_⟩
  rw [hreceived p hp, hgot]

end Passage

/-- Of the envelopes of one worker, a reader makes what they are. -/
theorem filter_readable {src : WorkerId} {p : Envelope → Bool}
    (hp : ∀ e, p e = true → e.sender = src) {es : List Envelope}
    (h : ∀ e ∈ es, e.sender = src → e.message.Addressable) :
    (Client.readable es).filter p = es.filter p := by
  induction es with
  | nil => rfl
  | cons e es ih =>
    have hone : (Client.reread e).toList.filter p = [e].filter p := by
      by_cases hsender : e.sender = src
      · rw [Client.reread_of_addressable (h e List.mem_cons_self hsender)]
        rfl
      · have hskip : ∀ e' : Envelope, e'.sender = e.sender → ¬ p e' = true :=
          fun e' heq hpe => hsender (heq ▸ hp e' hpe)
        rw [List.filter_cons_of_neg (hskip e rfl)]
        cases hreread : Client.reread e with
        | none => rfl
        | some e' => exact List.filter_cons_of_neg (hskip e' (Client.sender_of_reread hreread))
    rw [Client.readable_cons, List.filter_append, hone,
      ih fun e' he' => h e' (List.mem_cons_of_mem e he'), ← List.filter_append]
    rfl

/-- What is aimed at another worker is posted, not kept for the sender itself. -/
theorem filter_posted (src dst : WorkerId) (es : List Envelope) :
    (Client.posted es).filter (aimed src dst) = es.filter (aimed src dst) := by
  unfold Client.posted
  rw [List.filter_filter]
  refine List.filter_congr fun e _ => ?_
  cases haimed : aimed src dst e with
  | false => rfl
  | true =>
    rcases (aimed_eq_true.mp haimed).2 with h | ⟨h, _⟩ <;> simp [h]

/-! ### Under way

Worker 2 sends two envelopes to worker 3, one to it alone and one to all.  Its
stream takes the handshake and 18 bytes: the first frame and a piece of the second.
The bus reads them in two pieces, and what it writes is there for worker 3. -/

namespace Relay

open Broker (Course Serving logAll rehearsed rehearsal begins_rehearsed)

def one : Envelope := ⟨⟨2⟩, .selected, 3, .text "one"⟩

def two : Envelope := ⟨⟨2⟩, .all, 0, .text "two"⟩

def address : Address := .v4 ⟨127, 0, 0, 1⟩ 4000

/-- Worker 2 as it is connected, and its world. -/
def dialed : Client × Traced (Nat × Poll.Script) :=
  ({ uid := ⟨2⟩, stream := ⟨7⟩ }, ((0, { room := 18 }), []), [(⟨7⟩, handshake ⟨2⟩)])

/-- Worker 2 after it sent both envelopes. -/
def source : Client × Traced (Nat × Poll.Script) :=
  let first := dialed.1.send dialing.traced .selected 3 (.text "one") dialed.2
  (first.2.1.send dialing.traced .all 0 (.text "two") first.2.2).2

theorem sending : Client.Session dialing ⟨2⟩ [one, two] [] source.1 source.2 :=
  have hdialed : Client.connect dialing.traced address ⟨2⟩ .zero (.fresh (0, { room := 20 })) =
      (.ok dialed.1, dialed.2) := by decide +kernel
  ((Client.Session.connect hdialed).send .selected 3 (.text "one")).send .all 0 (.text "two")

theorem addressable : ∀ e ∈ [one, two], e.message.Addressable := by
  have hone : (Wire.utf8 "one").length < UInt64.size := by decide
  have htwo : (Wire.utf8 "two").length < UInt64.size := by decide
  exact List.forall_mem_cons.mpr ⟨hone, List.forall_mem_singleton.mpr htwo⟩

/-- What worker 2 wrote after its handshake. -/
def wrote : Bytes :=
  (source.2.took ⟨7⟩).drop (handshake ⟨2⟩).length

def greeting : Poll.Script :=
  { arriving := [(⟨2⟩, handshake ⟨2⟩), (⟨3⟩, handshake ⟨3⟩)], room := 100 }

def bringing (bytes : Bytes) : Poll.Script :=
  { arriving := [(⟨2⟩, bytes)], room := 100 }

def accepted : Broker (Traced (Nat × Poll.Script)) :=
  (rehearsed.runAll rehearsal.traced [.accept, .accept]).staged greeting

def joined : Broker (Traced (Nat × Poll.Script)) :=
  (accepted.runAll rehearsal.traced [.read ⟨2⟩, .read ⟨3⟩]).staged (bringing (wrote.take 4))

def begun : Broker (Traced (Nat × Poll.Script)) :=
  (joined.runAll rehearsal.traced [.read ⟨2⟩, .route]).staged (bringing (wrote.drop 4))

def bus : Broker (Traced (Nat × Poll.Script)) :=
  begun.runAll rehearsal.traced [.read ⟨2⟩, .route]

def log : List (Broker (Traced (Nat × Poll.Script)) × Phase) :=
  logAll rehearsal.traced [.accept, .accept] rehearsed ++
    logAll rehearsal.traced [.read ⟨2⟩, .read ⟨3⟩] accepted ++
    logAll rehearsal.traced [.read ⟨2⟩, .route] joined ++
    logAll rehearsal.traced [.read ⟨2⟩, .route] begun

theorem course : Course rehearsal (fun s id => id.val.toNat < s.1) log bus := by
  have haccepted := ((Course.begin begins_rehearsed).runAll [.accept, .accept]).staged greeting
  have hjoined := (haccepted.runAll [.read ⟨2⟩, .read ⟨3⟩]).staged (bringing (wrote.take 4))
  have hbegun := (hjoined.runAll [.read ⟨2⟩, .route]).staged (bringing (wrote.drop 4))
  exact hbegun.runAll [.read ⟨2⟩, .route]

/-- Besides worker 2, only worker 3 said anything to the bus. -/
theorem heard_bus {id : StreamId} (hid : id ≠ ⟨2⟩) :
    bus.heard id = if id = ⟨3⟩ then handshake ⟨3⟩ else [] := by
  have htape : bus.world.1.2 = [(⟨2⟩, handshake ⟨2⟩), (⟨3⟩, handshake ⟨3⟩),
      (⟨2⟩, wrote.take 4), (⟨2⟩, wrote.drop 4)] := by decide +kernel
  show Poll.Tape.of bus.world.1.2 id = _
  rw [htape]
  simp only [Poll.Tape.of, List.filter_cons, List.filter_nil, Ne.symm hid, decide_false]
  by_cases hthree : id = ⟨3⟩
  · subst hthree
    simp
  · simp [hthree, Ne.symm hthree]

theorem serving : Serving rehearsal ⟨2⟩ ⟨3⟩ ⟨2⟩ ⟨3⟩ log bus := by
  have hphases : log.map Prod.snd = [.accept, .accept, .read ⟨2⟩, .read ⟨3⟩, .read ⟨2⟩, .route,
      .read ⟨2⟩, .route] := by decide +kernel
  have hready : ∀ entry ∈ log, entry.2 = .route →
      entry.1.peers.find? ⟨3⟩ = some ⟨3⟩ ∨ entry.1.heard ⟨2⟩ <+: handshake ⟨2⟩ := by
    decide +kernel
  have hspared : ∀ entry ∈ log, entry.2 ≠ .route →
      (entry.1.run rehearsal.traced entry.2).queue =
        entry.1.queue ++ entry.1.arriving rehearsal.traced entry.2 := by
    decide +kernel
  refine { single := ?_, genuine := ?_, ready := ?_, spared := ?_ }
  · intro id hid length hparse
    rw [heard_bus hid] at hparse
    split at hparse
    · rw [← List.append_nil (handshake ⟨3⟩), Wire.parseHandshake_handshake] at hparse
      cases hparse
    · cases hparse
  · intro b e hentry
    have hphase := List.mem_map_of_mem (f := Prod.snd) hentry
    rw [hphases] at hphase
    simp at hphase
  · intro b hentry
    exact hready (b, .route) hentry rfl
  · intro b p hentry
    exact hspared (b, p) hentry

/-- Worker 3 as it is connected, and its world. -/
def answered : Client × Traced (Nat × Poll.Script) :=
  ({ uid := ⟨3⟩, stream := ⟨7⟩ }, ((0, {}), []), [(⟨7⟩, handshake ⟨3⟩)])

/-- What worker 3 receives once the bytes of the bus are there. -/
def receipt : Except Error (Option Envelope) × Client × Traced (Nat × Poll.Script) :=
  answered.1.receive dialing.traced .zero
    (answered.2.swap (0, { arriving := [(⟨7⟩, bus.took ⟨3⟩)] }))

theorem receiving : Client.Session dialing ⟨3⟩ [] [one] receipt.2.1 receipt.2.2 := by
  have hanswered : Client.connect dialing.traced address ⟨3⟩ .zero (.fresh (0, { room := 2 })) =
      (.ok answered.1, answered.2) := by decide +kernel
  have harrived : Client.arrived receipt.1 = [one] := by decide +kernel
  rw [← harrived]
  exact ((Client.Session.connect hanswered).outside _).receive .zero

end Relay

/-- Between two workers that stay connected, nothing is lost, doubled or reordered:
what worker `dst` received of what worker `src` aimed at it is the beginning of what
`src` sent, and everything else from `src` went to recipients picked at random. -/
theorem per_recipient_order {σ α β : Type} {host : Host σ} {issued : σ → StreamId → Prop}
    {srcHost : Host α} {dstHost : Host β} {src dst : WorkerId} (hnumbers : host.Numbers issued)
    (hne : src ≠ dst) (x : Passage host issued srcHost dstHost src dst) :
    (∀ e ∈ x.received, e.sender = src → e ∈ x.sent ∧ (aimed src dst e = true ∨ drawn e = true)) ∧
      x.received.filter (aimed src dst) <+: x.sent.filter (aimed src dst) ∧
      ((∀ e ∈ x.sent, aimed src dst e = true) →
        x.received.filter (fun e => e.sender = src) <+: x.sent) := by
  obtain ⟨vs, hvs, hconveys⟩ := x.conveys hnumbers hne
  obtain ⟨taken, htaken, hreceived⟩ := x.heeds hnumbers
  have hmailed := fun e (he : e ∈ taken) => hconveys.mailed e (htaken.subset he)
  have hsent : ∀ e ∈ vs, e ∈ x.sent := fun e he => (List.mem_filter.mp (hvs.subset he)).1
  -- what comes from `src` was sent, so it is what was in the mail
  have hfrom : ∀ p : Envelope → Bool, (∀ e, p e = true → e.sender = src) →
      x.received.filter p = taken.filter p := by
    intro p hp
    rw [hreceived p fun e hpe => hp e hpe ▸ hne]
    exact filter_readable hp fun e he hsender =>
      x.addressable e (hsent e (hmailed e he hsender).1)
  have hmeant : ∀ e ∈ x.received, e.sender = src →
      e ∈ x.sent ∧ (aimed src dst e = true ∨ drawn e = true) := by
    intro e he hsender
    have hmem : e ∈ x.received.filter fun e => e.sender = src :=
      List.mem_filter.mpr ⟨he, decide_eq_true hsender⟩
    rw [hfrom _ fun e he => of_decide_eq_true he] at hmem
    obtain ⟨hmem, hmeant⟩ := hmailed e (List.mem_filter.mp hmem).1 hsender
    exact ⟨hsent e hmem, hmeant⟩
  have horder : x.received.filter (aimed src dst) <+: x.sent.filter (aimed src dst) := by
    have hmail : taken.filter (aimed src dst) <+: vs.filter (aimed src dst) := by
      rw [← hconveys.order]
      exact (htaken.filter _).trans (List.prefix_append _ _)
    rw [hfrom _ fun e he => (aimed_eq_true.mp he).1, ← filter_posted src dst x.sent]
    exact hmail.trans (hvs.filter _)
  refine ⟨hmeant, horder, fun hall => ?_⟩
  have hreceived : x.received.filter (fun e => e.sender = src) =
      x.received.filter (aimed src dst) := by
    refine List.filter_congr fun e he => Bool.eq_iff_iff.mpr ?_
    rw [decide_eq_true_iff]
    exact ⟨fun hsender => hall e (hmeant e he hsender).1, fun h => (aimed_eq_true.mp h).1⟩
  rw [List.filter_eq_self.mpr hall] at horder
  exact hreceived ▸ horder

/-- The first envelope arrives; the second is still on its way. -/
theorem per_recipient_order_underway :
    ∃ x : Passage Broker.rehearsal (fun s id => id.val.toNat < s.1) dialing dialing ⟨2⟩ ⟨3⟩,
      x.sent = [Relay.one, Relay.two] ∧ x.received = [Relay.one] ∧
        (∀ e ∈ x.received, e.sender = ⟨2⟩ →
          e ∈ x.sent ∧ (aimed ⟨2⟩ ⟨3⟩ e = true ∨ drawn e = true)) ∧
        x.received.filter (aimed ⟨2⟩ ⟨3⟩) <+: x.sent.filter (aimed ⟨2⟩ ⟨3⟩) ∧
        x.received.filter (fun e => e.sender = ⟨2⟩) <+: x.sent := by
  have hkept : (Relay.bus.peer? ⟨3⟩).isSome = true := by decide +kernel
  have huphill : Relay.bus.heard ⟨2⟩ <+: Relay.source.2.took Relay.source.1.stream := by
    decide +kernel
  have hdownhill : Relay.receipt.2.2.heard Relay.receipt.2.1.stream <+: Relay.bus.took ⟨3⟩ := by
    decide +kernel
  let x : Passage Broker.rehearsal (fun s id => id.val.toNat < s.1) dialing dialing ⟨2⟩ ⟨3⟩ := {
    sent := [Relay.one, Relay.two]
    answers := []
    source := Relay.source.1
    sourceWorld := Relay.source.2
    received := [Relay.one]
    replies := []
    target := Relay.receipt.2.1
    targetWorld := Relay.receipt.2.2
    up := ⟨2⟩
    down := ⟨3⟩
    log := Relay.log
    bus := Relay.bus
    sending := Relay.sending
    addressable := Relay.addressable
    uphill := huphill
    course := Relay.course
    serving := Relay.serving
    kept := Option.isSome_iff_exists.mp hkept
    downhill := hdownhill
    receiving := Relay.receiving }
  have haimed : ∀ e ∈ [Relay.one, Relay.two], aimed ⟨2⟩ ⟨3⟩ e = true := by decide
  obtain ⟨hmem, horder, hall⟩ := per_recipient_order Broker.rehearsal_numbers (by decide) x
  exact ⟨x, rfl, rfl, hmem, horder, hall haimed⟩

end Supervisor.Bus
