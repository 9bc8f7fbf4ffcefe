import Supervisor.Proofs.Bus.Phases

/-!
# The stream to a connection

A connection that takes bytes slowly gets them in pieces: some at once, the
rest whenever it is ready, with new frames in between.  This module says that
the pieces make up the frames that were handed to it, whole and in order, and
that the broker writes on exactly as long as something is left.

* `courseMail` lists the envelopes that were handed to a connection in the
  course of a broker, pass by pass.
* Accounts.  In every phase the account of a connection grows by the frames
  that are handed to it (`carries_run`), so over a course it is all of them
  (`Course.account`).
* Keys.  `key_flushPeer` says what writing leaves of a key: a rest, and the
  interest that goes with it.  So every connection is `Poised` between
  operations (`Course.balanced`): there is interest in writing exactly while
  bytes wait, and no more of them than the limit and one frame.
-/

namespace Supervisor

open Wire (Bytes)

/-! ## Changing an interest -/

namespace Poll

/-- Whoever has no interest in writing cannot lose it. -/
theorem Ops.sdiff_writing {ops : Ops} (h : ops.write = false) : ops \ .writing = ops := by
  obtain ⟨read, write, accept⟩ := ops
  cases h
  cases read <;> cases accept <;> rfl

namespace Selector

variable {α : Type}

/-- The interest in one stream changes, and its key may be lost. -/
structure Retunes (id : StreamId) (f : Ops → Ops) (sel sel' : Selector α) : Prop where
  others : ∀ id', id' ≠ id → sel'.keys.find? id' = sel.keys.find? id'
  key : ∀ key', sel'.keys.find? id = some key' → ∃ key, sel.keys.find? id = some key ∧
    key'.attachment = key.attachment ∧ key'.interest = f key.interest

theorem retunes_insert {sel : Selector α} {id : StreamId} {key key' : Key α} {f : Ops → Ops}
    (hkey : sel.keys.find? id = some key) (hattachment : key'.attachment = key.attachment)
    (hinterest : key'.interest = f key.interest) :
    Retunes id f sel { sel with keys := sel.keys.insert id key' } where
  others id' hid := (Table.find?_insert sel.keys id id' key').trans (if_neg hid)
  key key'' hkey'' := by
    have hfind := (Table.find?_insert sel.keys id id key').trans (if_pos rfl)
    cases hfind.symm.trans hkey''
    exact ⟨key, hkey, hattachment, hinterest⟩

theorem retunes_unregister {sel : Selector α} {r : Selector α × Option Stream} {id : StreamId}
    {ops : Ops} (h : sel.unregister id ops = .ok r) : Retunes id (· \ ops) sel r.1 := by
  unfold unregister at h
  split at h
  · cases h
  · rename_i key hkey
    dsimp only at h
    split at h
    · cases h
      have hremove : ∀ id', (sel.remove id).keys.find? id' = _ := Table.find?_erase sel.keys id
      refine ⟨fun id' hid => (hremove id').trans (if_neg hid), fun key' hkey' => ?_⟩
      cases ((hremove id).trans (if_pos rfl)).symm.trans hkey'
    · cases h
      exact retunes_insert hkey rfl rfl

theorem retunes_reregister {sel sel' : Selector α} {id : StreamId} {ops : Ops}
    (h : sel.reregister id ops = .ok sel') : Retunes id (· ∪ ops) sel sel' := by
  unfold reregister at h
  split at h
  · cases h
  · rename_i key hkey
    split at h
    · cases h
    · cases h
      exact retunes_insert hkey rfl rfl

theorem exists_unregister {sel : Selector α} {id : StreamId} {key : Key α}
    (hkey : sel.keys.find? id = some key) (ops : Ops) : ∃ r, sel.unregister id ops = .ok r := by
  unfold unregister
  rw [hkey]
  dsimp only
  split
  · exact ⟨_, rfl⟩
  · exact ⟨_, rfl⟩

theorem exists_reregister_writing {sel : Selector α} {id : StreamId} {key : Key α}
    (hkey : sel.keys.find? id = some key) : ∃ sel', sel.reregister id .writing = .ok sel' := by
  have hvalid : validate key.stream .writing = .ok () := by
    simp [validate, Ops.isEmpty, Ops.writing, Ops.none]
  unfold reregister
  rw [hkey]
  simp only [hvalid]
  exact ⟨_, rfl⟩

end Selector

end Poll

namespace Bus

open Poll (Host Key Ops Selector Traced)

/-- Nobody connects and nothing is written. -/
def Phase.quiet : Phase → Bool
  | .accept | .flush _ | .route => false
  | _ => true

namespace Broker

variable {σ : Type} {host : Host σ}

/-! ## What is handed to a connection -/

/-- The frames among some offers that are for the worker of a connection, one
by one. -/
def parcels (b : Broker σ) (id : StreamId) (os : List (WorkerId × Bytes)) : List Bytes :=
  (os.filter fun o => b.peers.find? o.1 = some id).map (·.2)

/-- The envelopes that a pass hands to a connection. -/
def passMail (b : Broker σ) (id : StreamId) (fates : List (Queued × Fate)) : List Envelope :=
  fates.flatMap fun
    | (q, .offered uids) =>
      (uids.filter fun uid => b.peers.find? uid = some id).map fun _ => q.envelope
    | _ => []

/-- The envelopes that a phase hands to a connection. -/
def phaseMail (host : Host σ) (id : StreamId) : Broker σ × Phase → List Envelope
  | (b, .route) => b.passMail id (b.passFates host)
  | _ => []

/-- The envelopes that were handed to a connection in some phases, in their
order. -/
def courseMail (host : Host σ) (id : StreamId) (log : List (Broker σ × Phase)) : List Envelope :=
  log.flatMap (phaseMail host id)

theorem courseMail_concat (id : StreamId) (log : List (Broker σ × Phase))
    (entry : Broker σ × Phase) :
    courseMail host id (log ++ [entry]) = courseMail host id log ++ phaseMail host id entry := by
  simp [courseMail]

theorem phaseMail_of_ne_route {p : Phase} (hp : p ≠ .route) (id : StreamId) (b : Broker σ) :
    phaseMail host id (b, p) = [] := by
  cases p with
  | route => exact absurd rfl hp
  | _ => rfl

theorem passMail_cons (b : Broker σ) (id : StreamId) (entry : Queued × Fate)
    (fates : List (Queued × Fate)) :
    b.passMail id (entry :: fates) = b.passMail id [entry] ++ b.passMail id fates := by
  simp [passMail]

theorem parcels_append (b : Broker σ) (id : StreamId) (os os' : List (WorkerId × Bytes)) :
    b.parcels id (os ++ os') = b.parcels id os ++ b.parcels id os' := by
  unfold parcels
  rw [List.filter_append, List.map_append]

theorem flatten_parcels (b : Broker σ) (id : StreamId) (os : List (WorkerId × Bytes)) :
    (b.parcels id os).flatten = b.framesFor id os := by
  unfold parcels framesFor
  rw [List.flatMap_def]

/-- What is offered to the worker of a connection are the frames of its mail. -/
theorem parcels_offers (b : Broker σ) (id : StreamId) (fates : List (Queued × Fate)) :
    b.parcels id (offers fates) = (b.passMail id fates).map Wire.frame := by
  induction fates with
  | nil => rfl
  | cons entry fates ih =>
    rw [offers_cons, parcels_append, ih, passMail_cons, List.map_append]
    congr 1
    obtain ⟨q, fate⟩ := entry
    cases fate with
    | offered uids => simp [offers, parcels, passMail, List.filter_map, Function.comp_def]
    | inbox | kept | expired | unknown => rfl

theorem framesFor_offers (b : Broker σ) (id : StreamId) (fates : List (Queued × Fate)) :
    b.framesFor id (offers fates) = (b.passMail id fates).flatMap Wire.frame := by
  rw [← flatten_parcels, parcels_offers, List.flatMap_def]

/-! ## Accounts -/

/-- What is left to write to a connection, and the interest in writing it. -/
def outgoing (ops : Ops) (peer : Peer) : Ops × Bytes :=
  (ops, peer.outbound)

theorem keeps_greet (host : Host σ) {b : Broker σ} {id : StreamId} {peer : Peer}
    (hpeer : b.peer? id = some peer) :
    Keeps outgoing b (b.greet host id peer).2 := by
  rcases greet_cases host b id peer with ⟨h, _⟩ | ⟨h, _⟩ | ⟨uid, length, _, _, _, h⟩
  · rw [h]
    exact .refl b
  · rw [h]
    exact keeps_dropConnection b id
  · rw [h]
    obtain ⟨key, hkey, hattached⟩ := peer?_eq_some.mp hpeer
    have hnamed : Keeps outgoing b (b.setPeer id
        { peer with uid := some uid, reader := peer.reader.consume length }) :=
      keeps_setPeer hkey hattached rfl
    exact hnamed.trans (keeps_promote _ id uid)

theorem keeps_takeFrames (host : Host σ) {b : Broker σ} {id : StreamId} {peer : Peer}
    (hpeer : b.peer? id = some peer) : Keeps outgoing b (b.takeFrames host id peer).2 := by
  obtain ⟨key, hkey, hattached⟩ := peer?_eq_some.mp hpeer
  let queued : Broker σ := { b with queue := b.queue ++ b.fresh host peer }
  have hnoted : Keeps outgoing queued
      (queued.setPeer id { peer with reader := peer.reader.drain.1 }) :=
    keeps_setPeer hkey hattached rfl
  rcases takeFrames_cases host b id peer with ⟨_, h⟩ | ⟨_, h⟩ | ⟨_, h⟩
  · rw [h]
    exact .refl b
  · rw [h]
    exact hnoted.trans (keeps_dropConnection _ id)
  · rw [h]
    exact hnoted

/-- Reading changes nothing about what is to be written. -/
theorem keeps_readPeer (b : Broker σ) (id : StreamId) :
    Keeps outgoing b (b.readPeer host id) := by
  rcases readPeer_cases host b id with ⟨_, h⟩ | ⟨key, peer, hkey, hattached, h⟩
  · rw [h]
    exact .refl b
  · let heard := b.hear host id key peer
    let asked : Broker σ := { b with world := (key.stream.read host b.world).2 }
    have hasked : asked.peer? id = some peer := peer?_eq_some.mpr ⟨key, hkey, hattached⟩
    have hself : heard.2.peer? id = some heard.1 := peer?_setPeer_self hasked
    have hheard : Keeps outgoing b heard.2 := by
      have hnote : Keeps outgoing asked heard.2 := keeps_setPeer hkey hattached rfl
      exact hnote
    obtain ⟨_, hgreeted⟩ := acts_greet host hself
    have hall := hheard.trans (keeps_greet host hself)
    rcases h with ⟨_, h⟩ | ⟨greeted, hsome, h⟩
    · rw [h]
      exact hall
    · have htaken := hall.trans (keeps_takeFrames host (hgreeted greeted hsome))
      rcases h with h | h
      · rw [h]
        exact htaken
      · rw [h]
        exact htaken.trans (keeps_dropConnection _ id)

theorem keeps_run {p : Phase} (hquiet : p.quiet = true) (b : Broker σ) :
    Keeps outgoing b (b.run host p) := by
  cases p with
  | accept | flush | route => cases hquiet
  | read id => exact keeps_readPeer b id
  | submit | takeInbox => exact .of_keys rfl
  | sweep => exact (keeps_dropAll _ b).trans (keeps_dropAll _ _)
  | close => exact (keeps_dropAll _ b).trans (keeps_closeStream _ _)
  | select timeout => exact keeps_polled b timeout
  | closeStream id => exact keeps_selector_closeStream b id

theorem took_run {p : Phase} (hquiet : p.quiet = true) {b : Broker (Traced σ)}
    (hkeyed : b.selector.Keyed) : (b.run host.traced p).took = b.took := by
  have ofSame : b.world.SameTapes (b.run host.traced p).world →
      (b.run host.traced p).took = b.took := fun h => h.took
  cases p with
  | accept | flush | route => cases hquiet
  | read id =>
    rcases readPeer_cases host.traced b id with ⟨_, h⟩ | ⟨key, peer, hkey, hpeer, _⟩
    · exact congrArg took h
    · exact (tapes_readPeer host hkeyed hkey hpeer).1
  | submit | takeInbox | closeStream => rfl
  | sweep => exact ofSame ((sameTapes_dropAll _ b).trans (sameTapes_dropAll _ _))
  | close => exact ofSame ((sameTapes_dropAll _ b).trans (sameTapes_closeStream _ _))
  | select timeout => exact ofSame (sameTapes_polled b timeout)

/-- Nothing is carried to a connection for which nothing changes. -/
theorem Keeps.carries {b b' : Broker (Traced σ)} {id : StreamId} (h : Keeps outgoing b b')
    (htook : b'.took id = b.took id) : Carries id [] b b' := by
  have hsame : ∀ peer', b'.peer? id = some peer' →
      ∃ peer, b.peer? id = some peer ∧ peer'.outbound = peer.outbound := by
    intro peer' hpeer'
    obtain ⟨key', hkey', hattached'⟩ := peer?_eq_some.mp hpeer'
    obtain ⟨key, peer, hkey, hattached, hview⟩ := h id key' peer' hkey' hattached'
    exact ⟨peer, peer?_eq_some.mpr ⟨key, hkey, hattached⟩, congrArg Prod.snd hview⟩
  refine ⟨fun hnone => ⟨?_, htook⟩, fun peer peer' hpeer hpeer' => ?_, fun peer _ => ?_⟩
  · refine Option.eq_none_iff_forall_ne_some.mpr fun peer' hpeer' => ?_
    obtain ⟨peer, hpeer, _⟩ := hsame peer' hpeer'
    cases hnone.symm.trans hpeer
  · obtain ⟨peer₀, hpeer₀, houtbound⟩ := hsame peer' hpeer'
    cases hpeer.symm.trans hpeer₀
    rw [htook, houtbound, List.append_nil]
  · rw [htook, List.append_nil]
    exact List.prefix_append _ _

/-- Whatever is done, the account of a connection grows by the frames of the
envelopes that are handed to it. -/
theorem carries_run (host : Host σ) {b : Broker (Traced σ)} (hkeyed : b.selector.Keyed) {p : Phase}
    (hp : p ≠ .accept) (id : StreamId) :
    Carries id ((phaseMail host.traced id (b, p)).flatMap Wire.frame) b
      (b.run host.traced p) := by
  by_cases hquiet : p.quiet = true
  · have hmail : phaseMail host.traced id (b, p) = [] := by
      cases p with
      | route => cases hquiet
      | _ => rfl
    rw [hmail]
    exact (keeps_run hquiet b).carries (congrFun (took_run hquiet hkeyed) id)
  · cases p with
    | accept => exact absurd rfl hp
    | flush id' =>
      have hflush : Carries id [] b (b.flushPeer host.traced id') := carries_flushPeer hkeyed id' id
      exact hflush
    | route =>
      have hroute : Carries id (b.framesFor id (offers (b.passFates host.traced))) b
        (b.route host.traced) := carries_route hkeyed id
      rw [framesFor_offers] at hroute
      exact hroute
    | _ => exact absurd rfl hquiet

/-- Mail is for connections of workers. -/
theorem placed_of_phaseMail {b : Broker σ} {p : Phase} {id : StreamId}
    (h : phaseMail host id (b, p) ≠ []) : b.Placed id := by
  cases p with
  | route =>
    obtain ⟨e, he⟩ := List.exists_mem_of_ne_nil _ h
    obtain ⟨⟨q, fate⟩, _, hmem⟩ := List.mem_flatMap.mp he
    cases fate with
    | offered uids =>
      obtain ⟨uid, huid, _⟩ := List.mem_map.mp hmem
      exact Or.inr ⟨uid, of_decide_eq_true (List.mem_filter.mp huid).2⟩
    | inbox | kept | expired | unknown => cases hmem
  | _ => exact absurd rfl h

/-- Nothing was handed to a stream that has not been given out. -/
theorem Course.courseMail_of_not_issued {issued : σ → StreamId → Prop}
    {log : List (Broker (Traced σ) × Phase)} {b : Broker (Traced σ)}
    (hnumbers : host.Numbers issued) (h : Course host issued log b) {id : StreamId}
    (hid : ¬ issued b.world.bare id) : courseMail host.traced id log = [] := by
  induction h with
  | begin => rfl
  | @phase log b p hcourse ih =>
    have hbefore : ¬ issued b.world.bare id := fun h => hid (Course.issued_run hnumbers b p h)
    have hphase : phaseMail host.traced id (b, p) = [] := by
      by_contra hmail
      exact hbefore ((hcourse.sound hnumbers).2 id (placed_of_phaseMail hmail))
    rw [courseMail_concat, ih hbefore, hphase]
    rfl
  | outside world hissued _ ih => exact ih fun h => hid (hissued id h)

/-- What a connection took, and what waits to be written to it, are the frames
of all that was handed to it. -/
theorem Course.account {issued : σ → StreamId → Prop} {log : List (Broker (Traced σ) × Phase)}
    {b : Broker (Traced σ)} (hnumbers : host.Numbers issued) (h : Course host issued log b)
    {id : StreamId} {peer : Peer} (hpeer : b.peer? id = some peer) :
    b.took id ++ peer.outbound = (courseMail host.traced id log).flatMap Wire.frame := by
  induction h generalizing peer with
  | begin hbegins =>
    have hsound := hbegins.opened.sound
    exact absurd (hsound.1.placed hpeer) (hsound.2 id)
  | @phase log b p hcourse ih =>
    have hkeyed := (hcourse.sound hnumbers).1.keyed
    rw [courseMail_concat, List.flatMap_append]
    by_cases hp : p = .accept
    · subst hp
      have htook : (b.run host.traced .accept).took id = b.took id :=
        congrFun (sameTapes_accept b).took id
      have hphase : phaseMail host.traced id (b, .accept) = [] := rfl
      rw [htook, hphase, List.flatMap_nil, List.append_nil]
      obtain ⟨key, hkey, hattached⟩ := peer?_eq_some.mp hpeer
      rcases key_accept hnumbers.traced hkey with hold | ⟨hnew, _, hempty⟩
      · exact ih (peer?_eq_some.mpr ⟨key, hold, hattached⟩)
      · cases hempty.symm.trans hattached
        rw [(hcourse.silent hnumbers hnew).2, hcourse.courseMail_of_not_issued hnumbers hnew]
        rfl
    · have hcarries := carries_run host hkeyed hp id
      cases hbefore : b.peer? id with
      | none =>
        rw [(hcarries.absent hbefore).1] at hpeer
        cases hpeer
      | some before => rw [hcarries.stays before peer hbefore hpeer, ih hbefore]
  | outside world _ _ ih => exact ih hpeer

/-! ## What writing leaves of a key -/

/-- The interest in a connection of which `rest` is left to write. -/
def interestAfter (interest : Ops) (rest : Bytes) : Ops :=
  if rest.isEmpty then interest \ .writing else interest ∪ .writing

theorem key_setPeer_self {b : Broker σ} {id : StreamId} {key : Key Peer}
    (hkey : b.selector.keys.find? id = some key) (peer : Peer) :
    (b.setPeer id peer).selector.keys.find? id = some { key with attachment := some peer } := by
  have hfind : (b.setPeer id peer).selector.keys.find? id = _ := Table.find?_modify _ id id _
  rw [hfind, if_pos rfl, hkey]
  rfl

theorem key_setPeer_of_ne {b : Broker σ} {id id' : StreamId} (hid : id' ≠ id) (peer : Peer) :
    (b.setPeer id peer).selector.keys.find? id' = b.selector.keys.find? id' :=
  (Table.find?_modify b.selector.keys id id' _).trans (if_neg hid)

/-- After writing, there is interest in writing exactly if something is left. -/
theorem retunes_flushPeer {b : Broker σ} {id : StreamId} {key : Key Peer} {peer : Peer}
    (hkey : b.selector.keys.find? id = some key) (hpeer : key.attachment = some peer) :
    let out := key.stream.write peer.outbound host b.world
    let written := { b with world := out.2 }.setPeer id { peer with outbound := out.1.rest }
    out.1.failure = none →
      written.selector.Retunes id (interestAfter · out.1.rest)
        (b.flushPeer host id).selector := by
  intro out written hfailure
  let key' : Key Peer := { key with attachment := some { peer with outbound := out.1.rest } }
  have hkey' : written.selector.keys.find? id = some key' := key_setPeer_self hkey _
  have same : interestAfter key.interest out.1.rest = key.interest →
      written.selector.Retunes id (interestAfter · out.1.rest) written.selector := by
    intro hinterest
    refine ⟨fun _ _ => rfl, fun key'' hkey'' => ⟨key'', hkey'', rfl, ?_⟩⟩
    cases hkey'.symm.trans hkey''
    exact hinterest.symm
  unfold flushPeer
  rw [hkey]
  simp only [hpeer]
  cases hout : out.1.failure with
  | some failure => cases hfailure.symm.trans hout
  | none =>
    dsimp only
    split
    · rename_i hrest
      have hdrained : (interestAfter · out.1.rest) = (· \ .writing) :=
        funext fun _ => if_pos hrest
      split
      · split
        · rename_i hunregister
          rw [hdrained]
          exact Selector.retunes_unregister hunregister
        · rename_i hfailed
          obtain ⟨r, hunregister⟩ := Selector.exists_unregister hkey' .writing
          cases hfailed.symm.trans hunregister
      · rename_i hwrite
        refine same ?_
        rw [interestAfter, if_pos hrest, Ops.sdiff_writing (Bool.eq_false_iff.mpr hwrite)]
    · rename_i hrest
      have hleft : (interestAfter · out.1.rest) = (· ∪ .writing) :=
        funext fun _ => if_neg hrest
      split
      · rename_i hreregister
        rw [hleft]
        exact Selector.retunes_reregister hreregister
      · rename_i hfailed
        obtain ⟨selector, hreregister⟩ := Selector.exists_reregister_writing hkey'
        cases hfailed.symm.trans hreregister

/-- Writing to a connection leaves the other keys alone.  Its own, if it is
still there, has a rest to write and the interest that goes with it. -/
theorem key_flushPeer {b : Broker σ} {id id' : StreamId} {key' : Key Peer} {peer' : Peer}
    (hkey' : (b.flushPeer host id).selector.keys.find? id' = some key')
    (hpeer' : key'.attachment = some peer') :
    (id' ≠ id ∧ b.selector.keys.find? id' = some key') ∨
      ∃ key peer, b.selector.keys.find? id = some key ∧ key.attachment = some peer ∧ id' = id ∧
        peer'.outbound <:+ peer.outbound ∧
        key'.interest = interestAfter key.interest peer'.outbound := by
  cases hbefore : b.peer? id with
  | none =>
    rw [flushPeer_of_none hbefore] at hkey'
    refine Or.inl ⟨?_, hkey'⟩
    rintro rfl
    cases hbefore.symm.trans (peer?_eq_some.mpr ⟨key', hkey', hpeer'⟩)
  | some peer =>
    obtain ⟨key, hkey, hattached⟩ := peer?_eq_some.mp hbefore
    let out := key.stream.write peer.outbound host b.world
    let written := { b with world := out.2 }.setPeer id { peer with outbound := out.1.rest }
    have hothers : id' ≠ id → written.selector.keys.find? id' = b.selector.keys.find? id' :=
      fun hid => key_setPeer_of_ne hid _
    rcases flushPeer_cases host hkey hattached with ⟨_, h⟩ | ⟨hfailure, _⟩
    · rw [h, dropConnection, selector_closeStream] at hkey'
      have hfind := Table.find?_erase written.selector.keys id id'
      by_cases hid : id' = id
      · rw [if_pos hid] at hfind
        cases hfind.symm.trans hkey'
      · rw [if_neg hid] at hfind
        exact Or.inl ⟨hid, (hothers hid).symm.trans (hfind.symm.trans hkey')⟩
    · have hretunes := retunes_flushPeer hkey hattached hfailure
      by_cases hid : id' = id
      · subst hid
        obtain ⟨noted, hnoted, hsame, hinterest⟩ := hretunes.key key' hkey'
        have hself : written.selector.keys.find? id' = _ := key_setPeer_self hkey _
        cases hself.symm.trans hnoted
        cases hsame.symm.trans hpeer'
        exact Or.inr ⟨key, peer, hkey, hattached, rfl,
          key.stream.write_suffix peer.outbound host b.world, hinterest⟩
      · exact Or.inl ⟨hid, (hothers hid).symm.trans ((hretunes.others id' hid).symm.trans hkey')⟩

/-! ## What waits to be written -/

theorem SameMail.outboundLimit {b b' : Broker σ} (h : SameMail b b') :
    b'.outboundLimit = b.outboundLimit := by
  obtain ⟨_, _, _, _, rfl⟩ := h
  rfl

/-- The limit is set once. -/
theorem Acts.outboundLimit {b b' : Broker σ} (h : Acts host b b') :
    b'.outboundLimit = b.outboundLimit := by
  induction h with
  | refl => rfl
  | tail _ hact ih =>
    refine Eq.trans ?_ ih
    cases hact with
    | move hmove => exact hmove.sameMail.outboundLimit
    | mail => rfl
    | accept => exact (sameMail_accept _).outboundLimit
    | promote => exact ((sameMail_setPeer _ _ _).trans (sameMail_promote _ _ _)).outboundLimit

/-- There is interest in reading, and no more waits to be written than the limit
and one of the frames. -/
structure Laden (limit : Nat) (frames : List Bytes) (interest : Ops) (outbound : Bytes) :
    Prop where
  reads : interest.read = true
  accepts : interest.accept = false
  bounded : outbound ≠ [] → ∃ frame ∈ frames, outbound.length ≤ limit + frame.length

/-- Besides, there is interest in writing exactly while something waits. -/
structure Poised (limit : Nat) (frames : List Bytes) (interest : Ops) (outbound : Bytes) : Prop
    extends Laden limit frames interest outbound where
  writes : interest.write = !outbound.isEmpty

/-- What is left after writing a part of what waited is poised. -/
theorem Laden.written {limit : Nat} {frames : List Bytes} {interest : Ops}
    {outbound rest : Bytes} (h : Laden limit frames interest outbound) (hrest : rest <:+ outbound) :
    Poised limit frames (interestAfter interest rest) rest := by
  have hbounded : rest ≠ [] → ∃ frame ∈ frames, rest.length ≤ limit + frame.length := by
    intro hne
    have houtbound : outbound ≠ [] := by
      rintro rfl
      exact hne (List.suffix_nil.mp hrest)
    obtain ⟨frame, hframe, hlength⟩ := h.bounded houtbound
    exact ⟨frame, hframe, Nat.le_trans hrest.length_le hlength⟩
  obtain ⟨read, write, accept⟩ := interest
  cases h.reads
  cases h.accepts
  cases hempty : rest.isEmpty with
  | true =>
    have hinterest : interestAfter ⟨true, write, false⟩ rest = ⟨true, false, false⟩ := by
      rw [interestAfter, hempty]
      cases write <;> rfl
    rw [hinterest]
    exact ⟨⟨rfl, rfl, hbounded⟩, by rw [hempty]; rfl⟩
  | false =>
    have hinterest : interestAfter ⟨true, write, false⟩ rest = ⟨true, true, false⟩ := by
      rw [interestAfter, hempty]
      cases write <;> rfl
    rw [hinterest]
    exact ⟨⟨rfl, rfl, hbounded⟩, by rw [hempty]; rfl⟩

/-- Every connection is poised, for the frames that were handed to it. -/
def Balanced (frames : StreamId → List Bytes) (b : Broker σ) : Prop :=
  ∀ id key peer, b.selector.keys.find? id = some key → key.attachment = some peer →
    Poised b.outboundLimit (frames id) key.interest peer.outbound

theorem Balanced.mono {frames frames' : StreamId → List Bytes} {b : Broker σ}
    (h : Balanced frames b) (hframes : ∀ id, frames id ⊆ frames' id) : Balanced frames' b := by
  intro id key peer hkey hpeer
  have hpoised := h id key peer hkey hpeer
  refine ⟨⟨hpoised.reads, hpoised.accepts, fun hne => ?_⟩, hpoised.writes⟩
  obtain ⟨frame, hframe, hlength⟩ := hpoised.bounded hne
  exact ⟨frame, hframes id hframe, hlength⟩

theorem Keeps.balanced {frames : StreamId → List Bytes} {b b' : Broker σ}
    (h : Keeps outgoing b b') (hlimit : b'.outboundLimit = b.outboundLimit)
    (hb : Balanced frames b) : Balanced frames b' := by
  intro id key' peer' hkey' hpeer'
  obtain ⟨key, peer, hkey, hpeer, hview⟩ := h id key' peer' hkey' hpeer'
  obtain ⟨hinterest, houtbound⟩ := Prod.mk.inj hview
  rw [hlimit, hinterest, houtbound]
  exact hb id key peer hkey hpeer

/-- Writing to a connection, which may have got a new frame, leaves it poised. -/
theorem balanced_flushPeer {frames : StreamId → List Bytes} {b : Broker σ} {id : StreamId}
    (hothers : ∀ id' key peer, id' ≠ id → b.selector.keys.find? id' = some key →
      key.attachment = some peer →
      Poised b.outboundLimit (frames id') key.interest peer.outbound)
    (hself : ∀ key peer, b.selector.keys.find? id = some key → key.attachment = some peer →
      Laden b.outboundLimit (frames id) key.interest peer.outbound) :
    Balanced frames (b.flushPeer host id) := by
  intro id' key' peer' hkey' hpeer'
  rw [(moves_flushPeer b id).sameMail.outboundLimit]
  rcases key_flushPeer hkey' hpeer' with ⟨hid, hkey⟩ | ⟨key, peer, hkey, hpeer, rfl, hrest, hafter⟩
  · exact hothers id' key' peer' hid hkey hpeer'
  · rw [hafter]
    exact (hself key peer hkey hpeer).written hrest

theorem balanced_deliver {frames : StreamId → List Bytes} {b : Broker σ} (hb : Balanced frames b)
    (frame : Bytes) (uid : WorkerId) :
    Balanced (fun id => frames id ++ b.parcels id [(uid, frame)]) (deliver host frame b uid) := by
  have hmono : Balanced (fun id => frames id ++ b.parcels id [(uid, frame)]) b :=
    hb.mono fun id => List.subset_append_left _ _
  rcases deliver_cases host frame b uid with ⟨_, h⟩ | ⟨id, hid, h⟩
  · rw [h]
    exact hmono
  · rcases h with ⟨_, h⟩ | ⟨_, _, _, h⟩ | ⟨peer, _, _, h⟩ | ⟨peer, hpeer, hlimit, h⟩
    · rw [h]
      exact hmono
    · rw [h]
      exact hmono
    · rw [h]
      exact (keeps_dropConnection b id).balanced (sameMail_dropConnection b id).outboundLimit hmono
    · rw [h]
      obtain ⟨key, hkey, hattached⟩ := peer?_eq_some.mp hpeer
      refine balanced_flushPeer (fun id' key' peer' hne hkey' hpeer' => ?_)
        fun key' peer' hkey' hpeer' => ?_
      · rw [key_setPeer_of_ne hne] at hkey'
        exact hmono id' key' peer' hkey' hpeer'
      · cases (key_setPeer_self hkey _).symm.trans hkey'
        cases hpeer'
        have hpoised := hmono id key peer hkey hattached
        have hparcel : frame ∈ b.parcels id [(uid, frame)] := by simp [parcels, hid]
        refine ⟨hpoised.reads, hpoised.accepts, fun _ => ?_⟩
        refine ⟨frame, List.mem_append_right _ hparcel, ?_⟩
        rw [List.length_append]
        exact Nat.add_le_add_right hlimit frame.length

/-- Parcels are for the connections that the workers have before the pass. -/
theorem parcels_subset {b₀ b : Broker σ} (hthins : Thins b₀ b) (id : StreamId)
    (os : List (WorkerId × Bytes)) : b.parcels id os ⊆ b₀.parcels id os := by
  unfold parcels
  refine List.map_subset _ fun o ho => ?_
  obtain ⟨hmem, hpeers⟩ := List.mem_filter.mp ho
  exact List.mem_filter.mpr ⟨hmem, decide_eq_true (hthins.peers (of_decide_eq_true hpeers))⟩

theorem Posts.balanced {os : List (WorkerId × Bytes)} {b₀ b b' : Broker σ}
    (h : Posts host os b b') (hthins : Thins b₀ b) {frames : StreamId → List Bytes}
    (hb : Balanced frames b) : Balanced (fun id => frames id ++ b₀.parcels id os) b' := by
  induction h generalizing frames with
  | done => exact hb.mono fun id => List.subset_append_left _ _
  | @deliver os b b' uid frame _ ih =>
    have hdelivered : Balanced (fun id => frames id ++ b₀.parcels id [(uid, frame)])
        (Broker.deliver host frame b uid) := by
      refine (balanced_deliver hb frame uid).mono fun id => ?_
      exact List.append_subset.mpr ⟨List.subset_append_left _ _,
        List.subset_append_of_subset_right _ (parcels_subset hthins id _)⟩
    have hrest := ih (hthins.trans (moves_deliver frame b uid).thins) hdelivered
    refine hrest.mono fun id => ?_
    rw [List.append_assoc, ← parcels_append]
    exact List.Subset.refl _
  | @mail _ b _ queue inbox _ ih =>
    have hmail : Thins b { b with queue, inbox } := .of_eq rfl rfl rfl
    exact ih (hthins.trans hmail) hb
  | @roll _ b _ _ ih =>
    have hroll : Thins b { b with world := (host.roll b.world).2 } := .of_eq rfl rfl rfl
    exact ih (hthins.trans hroll) hb

/-- Between operations every connection is poised. -/
theorem Course.balanced {issued : σ → StreamId → Prop} {log : List (Broker (Traced σ) × Phase)}
    {b : Broker (Traced σ)} (hnumbers : host.Numbers issued) (h : Course host issued log b) :
    Balanced (fun id => (courseMail host.traced id log).map Wire.frame) b := by
  induction h with
  | begin hbegins =>
    intro id key peer hkey hpeer
    have hsound := hbegins.opened.sound
    exact absurd (hsound.1.placed (peer?_eq_some.mpr ⟨key, hkey, hpeer⟩)) (hsound.2 id)
  | @phase log b p hcourse ih =>
    have hlimit := (acts_run host.traced b p).outboundLimit
    have hold :
        Balanced (fun id => (courseMail host.traced id (log ++ [(b, p)])).map Wire.frame) b := by
      refine ih.mono fun id => ?_
      rw [courseMail_concat, List.map_append]
      exact List.subset_append_left _ _
    by_cases hquiet : p.quiet = true
    · exact (keeps_run hquiet b).balanced hlimit hold
    · cases p with
      | accept =>
        intro id key peer hkey hpeer
        rw [hlimit]
        rcases key_accept hnumbers.traced hkey with hkey | ⟨_, hinterest, hempty⟩
        · exact hold id key peer hkey hpeer
        · cases hempty.symm.trans hpeer
          rw [hinterest]
          exact ⟨⟨rfl, rfl, fun hne => absurd rfl hne⟩, rfl⟩
      | flush id' =>
        refine balanced_flushPeer (fun id key peer _ hkey hpeer => hold id key peer hkey hpeer) ?_
        exact fun key peer hkey hpeer => (hold id' key peer hkey hpeer).toLaden
      | route =>
        have hposts := posts_route host.traced b
        refine (hposts.balanced (.refl b) ih).mono fun id => ?_
        rw [parcels_offers, courseMail_concat, List.map_append]
        exact List.Subset.refl _
      | _ => exact absurd rfl hquiet
  | outside world _ _ ih => exact ih

end Broker

open Broker in
/-- What a connection takes is intact.  In any state of a broker, and however
little its streams take at a time, the bytes that a connection took and those
that wait to be written to it are together the frames of the envelopes that
were handed to it, whole and in the order of routing.  There is interest in
writing to it exactly while something waits, and what waits is no longer than
the limit and one frame. -/
theorem outbound_stream_intact {σ : Type} {host : Host σ} {issued : σ → StreamId → Prop}
    {log : List (Broker (Traced σ) × Phase)} {b : Broker (Traced σ)}
    (hnumbers : host.Numbers issued) (h : Course host issued log b) {id : StreamId}
    {key : Key Peer} {peer : Peer} (hkey : b.selector.keys.find? id = some key)
    (hpeer : key.attachment = some peer) :
    let mail := courseMail host.traced id log
    b.took id ++ peer.outbound = mail.flatMap Wire.frame ∧
      (key.interest.write = true ↔ peer.outbound ≠ []) ∧
      (peer.outbound ≠ [] →
        ∃ e ∈ mail, peer.outbound.length ≤ b.outboundLimit + (Wire.frame e).length) := by
  intro mail
  have hpoised := h.balanced hnumbers id key peer hkey hpeer
  refine ⟨h.account hnumbers (peer?_eq_some.mpr ⟨key, hkey, hpeer⟩), ?_, fun hne => ?_⟩
  · rw [hpoised.writes, Bool.not_eq_true', List.isEmpty_eq_false_iff]
  · obtain ⟨frame, hframe, hlength⟩ := hpoised.bounded hne
    obtain ⟨e, he, rfl⟩ := List.mem_map.mp hframe
    exact ⟨e, he, hlength⟩

open Broker in
/-- Two envelopes go to worker 2.  Its stream takes ten bytes in the routing pass
and seven more when it is ready again; the rest waits, and is of interest. -/
theorem outbound_stream_intact_slow :
    let said (text : String) : Envelope := ⟨.server, .selected, 2, .text text⟩
    let mail := [said "one", said "two"]
    let joining : Poll.Script := { arriving := [(⟨2⟩, Wire.handshake ⟨2⟩)], room := 10 }
    let joined := (rehearsed.run rehearsal.traced .accept).staged joining
    let turn : List Phase := .read ⟨2⟩ :: mail.map .submit ++ [.route]
    let routed := (joined.runAll rehearsal.traced turn).staged { room := 7 }
    let b := routed.run rehearsal.traced (.flush ⟨2⟩)
    let log := (rehearsed, .accept) :: logAll rehearsal.traced turn joined ++
      [(routed, .flush ⟨2⟩)]
    Course rehearsal (fun s id => id.val.toNat < s.1) log b ∧
      ∃ key peer, b.selector.keys.find? ⟨2⟩ = some key ∧ key.attachment = some peer ∧
        (b.took ⟨2⟩).length = 17 ∧
        b.took ⟨2⟩ ++ peer.outbound = mail.flatMap Wire.frame ∧
        key.interest.write = true ∧
        ∃ e ∈ mail, peer.outbound.length ≤ b.outboundLimit + (Wire.frame e).length := by
  intro said mail joining joined turn routed b log
  have hjoined : Course rehearsal (fun s id => id.val.toNat < s.1) [(rehearsed, .accept)] joined :=
    ((Course.begin begins_rehearsed).phase .accept).staged joining
  have hcourse : Course rehearsal (fun s id => id.val.toNat < s.1) log b :=
    ((hjoined.runAll turn).staged { room := 7 }).phase (.flush ⟨2⟩)
  have hmail : courseMail rehearsal.traced ⟨2⟩ log = mail := by decide +kernel
  let peer : Peer := { uid := some ⟨2⟩, outbound := (mail.flatMap Wire.frame).drop 17 }
  let key : Key Peer := {
    stream := { id := ⟨2⟩, kind := .socket }
    interest := { read := true, write := true }
    attachment := some peer }
  have hkey : b.selector.keys.find? ⟨2⟩ = some key := by decide +kernel
  have hwaits : peer.outbound ≠ [] := by decide +kernel
  obtain ⟨haccount, hwrite, hbounded⟩ :=
    outbound_stream_intact rehearsal_numbers hcourse hkey rfl
  rw [hmail] at haccount hbounded
  exact ⟨hcourse, key, peer, hkey, rfl, by decide +kernel, haccount, hwrite.mpr hwaits,
    hbounded hwaits⟩

end Bus

end Supervisor
