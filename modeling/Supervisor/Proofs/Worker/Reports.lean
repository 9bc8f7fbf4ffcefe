import Supervisor.Proofs.Bus.Link
import Supervisor.Proofs.Pool.Acceptance
import Supervisor.Worker.Loop

/-!
# What a worker reports about itself

A worker and the scheduler know the status machine each in its own way: a worker
reports where it moved to, and a collection refuses reports that do not fit what it
has on record.  This module shows that they agree.

* Services.  `Acts` is what a service can do with its worker when it is called, and
  `Service.Proper` says that it does nothing else.
* What a worker says.  `Says` counts what goes out over its connection, reports and
  other envelopes, and says that the reports lead along the status machine.  `Quiet`
  is what happens without a report.
* Reporting.  A worker that can reach a status gets there and reports it
  (`says_transition`).
* Turns.  A worker on duty stays on duty (`works_turns`), so whatever it reports next
  is within its reach.
* From the first report to the last (`says_run`).

`status_reports_accepted` puts this together with what a collection does with the
reports.
-/

namespace Supervisor.Worker

open Bus (Client)
open Poll (Host Traced)
open Pool (Collection)
open Pool.Collection (Operation marked reportsOf)
open Wire (frame handshake)

variable {σ : Type}

/-! ## Sending -/

namespace Context

theorem send_eq {σ : Type} (c : Context) (w : Station σ) (audience : Audience) (number : UInt64)
    (message : Message) (s : σ) : c.send w audience number message s =
      let r := c.link.send w.host audience number message s
      (r.1, { c with link := r.2.1 }, r.2.2) := by
  unfold send
  generalize c.link.send w.host audience number message s = r
  rfl

/-- The record with the time that the worker has used. -/
def sampled {σ : Type} (c : Context) (w : Station σ) (s : σ) : Record :=
  { c.record with userTime := (w.host.usage s).1, systemTime := (w.host.usage s).2 }

theorem report_eq {σ : Type} (c : Context) (w : Station σ) (s : σ) : c.report w s =
    let r := c.link.send w.host .server 0 (.status (c.sampled w s)) s
    (r.1, { c with record := c.sampled w s, link := r.2.1 }, r.2.2) :=
  send_eq { c with record := c.sampled w s } w .server 0 (.status (c.sampled w s)) s

end Context

/-! ## What a service may do -/

/-- The same surroundings, on a host with tapes. -/
def Station.traced (w : Station σ) : Station (Traced σ) where
  host := w.host.traced
  asked s := w.asked s.bare
  process := w.process
  thread := w.thread

/-- What a service makes of its context and of the world when it is called.  It
sends `allowed` envelopes, says what it is doing and asks to leave; besides it
changes the world, but it writes nothing to the connection of the worker. -/
inductive Acts (w : Station (Traced σ)) (allowed : Envelope → Prop) (c : Context)
    (s : Traced σ) : Context → Traced σ → Prop where
  | nothing : Acts w allowed c s c s
  | send {c' : Context} {s' : Traced σ} (audience : Audience) (number : UInt64)
      (message : Message) : Acts w allowed c s c' s' →
      allowed ⟨c'.link.uid, audience, number, message⟩ →
      Acts w allowed c s (c'.send w audience number message s').2.1
        (c'.send w audience number message s').2.2
  | describe {c' : Context} {s' : Traced σ} (text : String) : Acts w allowed c s c' s' →
      Acts w allowed c s (c'.describe text) s'
  | requestExit {c' : Context} {s' : Traced σ} : Acts w allowed c s c' s' →
      Acts w allowed c s c'.requestExit s'
  | outside {c' : Context} {s' s'' : Traced σ} : Acts w allowed c s c' s' →
      s''.took c'.link.stream = s'.took c'.link.stream → Acts w allowed c s c' s''

/-- All that a service does with its worker it does through its context. -/
structure Service.Proper (service : Service (Traced σ)) (w : Station (Traced σ))
    (allowed : Envelope → Prop) : Prop where
  start : ∀ c s, Acts w allowed c s (service.start c s).2.1 (service.start c s).2.2
  step : ∀ c s, Acts w allowed c s (service.step c s).2.1 (service.step c s).2.2
  onMessage : ∀ e c s,
    Acts w allowed c s (service.onMessage e c s).2.1 (service.onMessage e c s).2.2
  stop : ∀ c s, Acts w allowed c s (service.stop c s).1 (service.stop c s).2

/-! ## What a worker says -/

/-- What goes out over the connection of a worker. -/
inductive Utterance where
  /-- A status report of the worker. -/
  | report (r : Record)
  /-- Something that its service sends. -/
  | message (e : Envelope)
deriving DecidableEq, Repr

def Utterance.envelope (uid : WorkerId) : Utterance → Envelope
  | .report r => ⟨uid, .server, 0, .status r⟩
  | .message e => e

def Utterance.report? : Utterance → Option Record
  | .report r => some r
  | .message _ => none

/-- The worker's reports, in their order. -/
def reports (said : List Utterance) : List Record :=
  said.filterMap Utterance.report?

theorem reports_append (said said' : List Utterance) :
    reports (said ++ said') = reports said ++ reports said' :=
  List.filterMap_append

variable {w : Station σ} {allowed : Envelope → Prop} {said said' : List Utterance}
  {c c' c'' : Context} {s s' s'' : Traced σ}

/-- What a worker said, and what of it are reports: they lead along the status
machine, and as long as the connection holds they lead to where the worker is. -/
structure Says (allowed : Envelope → Prop) (said : List Utterance) (c : Context) (s : Traced σ)
    (c' : Context) (s' : Traced σ) : Prop where
  uid : c'.record.uid = c.record.uid
  utters : c.link.Utters (said.map (Utterance.envelope c.link.uid)) s c'.link s'
  others : ∀ e, .message e ∈ said → allowed e
  own : ∀ r ∈ reports said, r.uid = c.record.uid
  path : ∃ t, c.record.status.Path ((reports said).map (·.status)) t ∧
    (c'.link.closed = false → c'.record.status = t)

theorem Says.refl (allowed : Envelope → Prop) (c : Context) (s : Traced σ) :
    Says allowed [] c s c s where
  uid := rfl
  utters := .refl c.link s
  others _ he := nomatch he
  own _ hr := nomatch hr
  path := ⟨c.record.status, rfl, fun _ => rfl⟩

theorem Says.trans (h : Says allowed said c s c' s') (h' : Says allowed said' c' s' c'' s'') :
    Says allowed (said ++ said') c s c'' s'' where
  uid := h'.uid.trans h.uid
  utters := by
    rw [List.map_append]
    exact h.utters.trans (h.utters.uid ▸ h'.utters)
  others e he := (List.mem_append.mp he).elim (h.others e) (h'.others e)
  own r hr := by
    rw [reports_append] at hr
    exact (List.mem_append.mp hr).elim (h.own r) fun hr => (h'.own r hr).trans h.uid
  path := by
    obtain ⟨t, hpath, hstatus⟩ := h.path
    obtain ⟨t', hpath', hstatus'⟩ := h'.path
    cases hclosed : c'.link.closed with
    | false =>
      rw [reports_append, List.map_append]
      exact ⟨t', hpath.append (hstatus hclosed ▸ hpath'), hstatus'⟩
    | true =>
      have hnothing : said' = [] := List.map_eq_nil_iff.mp (h'.utters.silent hclosed)
      rw [hnothing, List.append_nil]
      refine ⟨t, hpath, fun hopen => ?_⟩
      cases hopen.symm.trans (h'.utters.closed hclosed)

/-- What happens without a report, and without a change of the status. -/
def Quiet (allowed : Envelope → Prop) (c : Context) (s : Traced σ) (c' : Context)
    (s' : Traced σ) : Prop :=
  c'.record.status = c.record.status ∧
    ∃ said, reports said = [] ∧ Says allowed said c s c' s'

theorem Quiet.trans (h : Quiet allowed c s c' s') (h' : Quiet allowed c' s' c'' s'') :
    Quiet allowed c s c'' s'' := by
  obtain ⟨hstatus, said, hnone, hsaid⟩ := h
  obtain ⟨hstatus', said', hnone', hsaid'⟩ := h'
  refine ⟨hstatus'.trans hstatus, said ++ said', ?_, hsaid.trans hsaid'⟩
  rw [reports_append, hnone, hnone', List.append_nil]

/-- The connection may do what it likes, as long as nothing is said that is not
allowed to be said. -/
theorem quiet_of_utters {es : List Envelope} (huid : c'.record.uid = c.record.uid)
    (hstatus : c'.record.status = c.record.status) (hutters : c.link.Utters es s c'.link s')
    (hallowed : ∀ e ∈ es, allowed e) : Quiet allowed c s c' s' := by
  let said := es.map Utterance.message
  have hnone : reports said = [] := by
    rw [reports, List.filterMap_map]
    exact List.filterMap_eq_nil_iff.mpr fun _ _ => rfl
  have hsame : said.map (Utterance.envelope c.link.uid) = es := by
    rw [List.map_map]
    exact List.map_id es
  refine ⟨hstatus, said, hnone, huid, hsame.symm ▸ hutters, fun e he => ?_, ?_, ?_⟩
  · obtain ⟨e', he', heq⟩ := List.mem_map.mp he
    cases heq
    exact hallowed e he'
  · rw [hnone]
    exact fun _ hr => nomatch hr
  · rw [hnone]
    exact ⟨c.record.status, rfl, fun _ => hstatus⟩

theorem quiet_of_silence (huid : c'.record.uid = c.record.uid)
    (hstatus : c'.record.status = c.record.status) (h : c.link.Utters [] s c'.link s') :
    Quiet allowed c s c' s' :=
  quiet_of_utters huid hstatus h fun _ he => nomatch he

theorem Quiet.refl (allowed : Envelope → Prop) (c : Context) (s : Traced σ) :
    Quiet allowed c s c s :=
  quiet_of_silence rfl rfl (.refl c.link s)

/-- A service that is called says nothing about the status. -/
theorem Acts.quiet (h : Acts w.traced allowed c s c' s') : Quiet allowed c s c' s' := by
  induction h with
  | nothing => exact .refl allowed c s
  | @send c' s' audience number message _ hallowed ih =>
    rw [Context.send_eq]
    refine ih.trans (quiet_of_utters rfl rfl
      (Client.utters_send w.host c'.link audience number message s') fun e he => ?_)
    split at he
    · cases he
    · cases List.mem_singleton.mp he
      exact hallowed
  | @describe c' s' _ _ ih => exact ih.trans (quiet_of_silence rfl rfl (.refl c'.link s'))
  | @requestExit c' s' _ ih => exact ih.trans (quiet_of_silence rfl rfl (.refl c'.link s'))
  | @outside c' s' s'' _ htook ih =>
    have hutters : c'.link.Utters [] s' c'.link s'' :=
      ⟨rfl, rfl, id, (congrArg (· ++ c'.link.outbound) htook).trans (List.append_nil _).symm,
        fun _ => rfl⟩
    exact ih.trans (quiet_of_silence rfl rfl hutters)

/-! ## Reporting -/

/-- A finished task changes the number of tasks and their rate. -/
theorem finishTask_eq (r : Record) (now : Millis) :
    ∃ rate, r.finishTask now = { r with tasks := r.tasks + 1, rate } := by
  unfold Record.finishTask
  dsimp only
  split
  · exact ⟨_, rfl⟩
  · exact ⟨r.rate, rfl⟩

/-- A report says where the worker got to. -/
theorem says_report (allowed : Envelope → Prop) (c : Context) (record : Record)
    (huid : record.uid = c.record.uid)
    (hmoves : c.record.status.canBecome record.status = true) (s : Traced σ) :
    let r := { c with record }.report w.traced s
    r.2.1.record.status = record.status ∧ ∃ said, Says allowed said c s r.2.1 r.2.2 ∧
      (c.link.closed = false →
        c.record.status.Path ((reports said).map (·.status)) record.status) := by
  intro r
  let sampled : Record := { c with record }.sampled w.traced s
  let sent := c.link.send w.host.traced .server 0 (.status sampled) s
  have hutters : c.link.Utters (if Audience.server = .sender ∨ c.link.closed = true then [] else
      [⟨c.link.uid, .server, 0, .status sampled⟩]) s sent.2.1 sent.2.2 :=
    Client.utters_send w.host c.link .server 0 (.status sampled) s
  have hr : r = (sent.1, { c with record := sampled, link := sent.2.1 }, sent.2.2) :=
    Context.report_eq { c with record } w.traced s
  rw [hr]
  refine ⟨rfl, ?_⟩
  cases hclosed : c.link.closed with
  | true =>
    rw [if_pos (Or.inr hclosed)] at hutters
    have hpath : ∃ t, c.record.status.Path [] t ∧ (sent.2.1.closed = false →
        sampled.status = t) := by
      refine ⟨c.record.status, rfl, fun hopen => ?_⟩
      cases hopen.symm.trans (hutters.closed hclosed)
    exact ⟨[], ⟨huid, hutters, fun _ he => (nomatch he), fun _ hr => (nomatch hr), hpath⟩,
      fun hopen => nomatch hopen⟩
  | false =>
    rw [if_neg (by rw [hclosed]; decide)] at hutters
    have hpath : c.record.status.Path [record.status] record.status := ⟨hmoves, rfl⟩
    refine ⟨[.report sampled], ⟨huid, hutters, fun e he => ?_, fun r hr => ?_, ?_⟩, fun _ => hpath⟩
    · cases List.mem_singleton.mp he
    · cases List.mem_singleton.mp hr
      exact huid
    · exact ⟨record.status, hpath, fun _ => rfl⟩

theorem transition_of_same {next : Status} (h : c.record.status = next) (s : Traced σ) :
    c.transition w.traced next s = (.ok (), c, s) :=
  if_pos h

/-- A status that the worker cannot reach is not reported. -/
theorem transition_of_stuck {next : Status} (h : c.record.status.canBecome next = false)
    (s : Traced σ) : c.transition w.traced next s = (.ok (), c, s) := by
  unfold Context.transition
  split
  · rfl
  · have hnone : c.record.setStatus? next (w.traced.host.present s) = none :=
      if_neg (by rw [h]; exact Bool.false_ne_true)
    rw [hnone]

/-- A worker that can reach a status gets there, and reports it unless it was there. -/
theorem says_transition (allowed : Envelope → Prop) {next : Status}
    (h : c.record.status.canBecome next = true) (s : Traced σ) :
    let r := c.transition w.traced next s
    r.2.1.record.status = next ∧ ∃ said, Says allowed said c s r.2.1 r.2.2 ∧
      (c.link.closed = false → c.record.status.Path ((reports said).map (·.status)) next) := by
  intro r
  by_cases hsame : c.record.status = next
  · have hr : r = (.ok (), c, s) := transition_of_same hsame s
    rw [hr]
    exact ⟨hsame, [], .refl allowed c s, fun _ => hsame⟩
  · let record : Record := { c.record with
      status := next
      changedAt := if c.record.status = next then c.record.changedAt else w.host.present s.bare }
    have hrecord : c.record.setStatus? next (w.traced.host.present s) = some record := if_pos h
    have hr : r = { c with record }.report w.traced s := by
      show c.transition w.traced next s = _
      unfold Context.transition
      rw [if_neg hsame, hrecord]
    rw [hr]
    exact says_report allowed c record rfl h s

/-! ## Taking turns -/

/-- A worker that serves is waiting or running. -/
def Context.OnDuty (c : Context) : Prop :=
  c.record.status = .waiting ∨ c.record.status = .running

theorem Context.OnDuty.canBecome {next : Status} (h : c.OnDuty)
    (hnext : next = .waiting ∨ next = .running ∨ next = .exiting) :
    c.record.status.canBecome next = true := by
  rcases h with h | h <;> rw [h] <;> rcases hnext with rfl | rfl | rfl <;> rfl

theorem Context.OnDuty.congr (h : c.OnDuty) (hstatus : c'.record.status = c.record.status) :
    c'.OnDuty := by
  unfold OnDuty
  rwa [hstatus]

/-- A worker on duty says something and stays on duty. -/
def Works (allowed : Envelope → Prop) (c : Context) (s : Traced σ) (c' : Context)
    (s' : Traced σ) : Prop :=
  c.OnDuty → c'.OnDuty ∧ ∃ said, Says allowed said c s c' s'

theorem Works.trans (h : Works allowed c s c' s') (h' : Works allowed c' s' c'' s'') :
    Works allowed c s c'' s'' := by
  intro hduty
  obtain ⟨hduty', said, hsaid⟩ := h hduty
  obtain ⟨hduty'', said', hsaid'⟩ := h' hduty'
  exact ⟨hduty'', said ++ said', hsaid.trans hsaid'⟩

theorem Quiet.works (h : Quiet allowed c s c' s') : Works allowed c s c' s' := by
  intro hduty
  obtain ⟨hstatus, said, _, hsaid⟩ := h
  exact ⟨hduty.congr hstatus, said, hsaid⟩

theorem works_transition {next : Status} (hnext : next = .waiting ∨ next = .running)
    (c : Context) (s : Traced σ) :
    Works allowed c s (c.transition w.traced next s).2.1 (c.transition w.traced next s).2.2 := by
  intro hduty
  have hmoves := hduty.canBecome (hnext.imp_right Or.inl)
  obtain ⟨hstatus, said, hsaid, _⟩ := says_transition allowed hmoves s
  refine ⟨?_, said, hsaid⟩
  unfold Context.OnDuty
  rwa [hstatus]

/-- A worker that finishes a task waits. -/
theorem finished_eq (h : c.OnDuty) (now : Millis) : ∃ rate changedAt,
    ((c.record.finishTask now).setStatus? .waiting now).getD (c.record.finishTask now) =
      { c.record with tasks := c.record.tasks + 1, rate, status := .waiting, changedAt } := by
  obtain ⟨rate, hfinished⟩ := finishTask_eq c.record now
  rw [hfinished]
  unfold Record.setStatus?
  dsimp only
  rw [if_pos (h.canBecome (Or.inl rfl))]
  exact ⟨rate, _, rfl⟩

/-- Whatever a step comes to, the worker reports it along the status machine. -/
theorem works_settle (maxTasks : UInt64) (step : Step) (c : Context) (s : Traced σ) :
    Works allowed c s (settle w.traced maxTasks step c s).2.1
      (settle w.traced maxTasks step c s).2.2 := by
  cases step with
  | idle =>
    have hworks : Works allowed c s (c.transition w.traced .waiting s).2.1
        (c.transition w.traced .waiting s).2.2 := works_transition (Or.inl rfl) c s
    unfold settle
    dsimp only
    split <;> rename_i heq <;> rw [heq] at hworks <;> exact hworks
  | busy =>
    have hworks : Works allowed c s (c.transition w.traced .running s).2.1
        (c.transition w.traced .running s).2.2 := works_transition (Or.inr rfl) c s
    unfold settle
    dsimp only
    split <;> rename_i heq <;> rw [heq] at hworks <;> exact hworks
  | finished =>
    intro hduty
    obtain ⟨rate, changedAt, hwaiting⟩ := finished_eq hduty (w.traced.host.present s)
    let record : Record :=
      { c.record with tasks := c.record.tasks + 1, rate, status := .waiting, changedAt }
    obtain ⟨hstatus, said, hsaid, _⟩ :=
      says_report (w := w) allowed c record rfl (hduty.canBecome (Or.inl rfl)) s
    have hreport : ({ c with record }.report w.traced s).2.1.OnDuty ∧
        ∃ said, Says allowed said c s ({ c with record }.report w.traced s).2.1
          ({ c with record }.report w.traced s).2.2 :=
      ⟨Or.inl hstatus, said, hsaid⟩
    unfold settle
    dsimp only
    rw [hwaiting]
    split
    · rename_i heq
      rw [heq] at hreport
      exact hreport
    · rename_i heq
      rw [heq] at hreport
      split <;> exact hreport

/-- A step of its service keeps a worker on duty. -/
theorem works_advance {service : Service (Traced σ)} (hproper : service.Proper w.traced allowed)
    (maxTasks : UInt64) (c : Context) (s : Traced σ) :
    Works allowed c s (advance w.traced service maxTasks c s).2.1
      (advance w.traced service maxTasks c s).2.2 := by
  unfold advance
  split
  · exact (Quiet.refl allowed c s).works
  · have hstep := (hproper.step c s).quiet.works
    split
    · rename_i heq
      rw [heq] at hstep
      exact hstep
    · rename_i step c' s' heq
      rw [heq] at hstep
      exact hstep.trans (works_settle maxTasks step c' s')

theorem quiet_dispatch {service : Service (Traced σ)} (hproper : service.Proper w.traced allowed)
    (e : Envelope) (c : Context) (s : Traced σ) :
    Quiet allowed c s (dispatch service e c s).2.1 (dispatch service e c s).2.2 := by
  unfold dispatch
  split
  · exact quiet_of_silence rfl rfl (.refl c.link s)
  · exact (hproper.onMessage e c s).quiet

theorem works_turn {service : Service (Traced σ)} (hproper : service.Proper w.traced allowed)
    (settings : Settings) (busy : Bool) (c : Context) (s : Traced σ) :
    Works allowed c s (turn w.traced service settings busy c s).2.1
      (turn w.traced service settings busy c s).2.2 := by
  unfold turn
  split
  · exact (Quiet.refl allowed c s).works
  · have hutters : c.link.Utters [] s
        (c.link.receive w.traced.host (if busy then .zero else settings.tick) s).2.1
        (c.link.receive w.traced.host (if busy then .zero else settings.tick) s).2.2 :=
      Client.utters_receive w.host c.link (if busy then .zero else settings.tick) s
    generalize c.link.receive w.traced.host (if busy then .zero else settings.tick) s = r at hutters
    obtain ⟨received, link, s'⟩ := r
    have hquiet : Quiet allowed c s { c with link } s' := quiet_of_silence rfl rfl hutters
    have hreceived := hquiet.works
    dsimp only
    split
    · exact hreceived
    · exact hreceived
    · exact hreceived.trans (works_advance hproper settings.maxTasks _ s')
    · rename_i e
      have hdispatched := hreceived.trans (quiet_dispatch hproper e { c with link } s').works
      split
      · rename_i heq
        rw [heq] at hdispatched
        exact hdispatched
      · rename_i c' s'' heq
        rw [heq] at hdispatched
        exact hdispatched.trans (works_advance hproper settings.maxTasks c' s'')

/-- However many turns a worker takes, its reports lead along the status machine. -/
theorem works_turns {service : Service (Traced σ)} (hproper : service.Proper w.traced allowed)
    (settings : Settings) (n : Nat) (busy : Bool) (c : Context) (s : Traced σ) :
    Works allowed c s (turns w.traced service settings n busy c s).2.1
      (turns w.traced service settings n busy c s).2.2 := by
  induction n generalizing busy c s with
  | zero => exact (Quiet.refl allowed c s).works
  | succ n ih =>
    have hturn := works_turn hproper settings busy c s
    unfold turns
    split
    · rename_i heq
      rw [heq] at hturn
      exact hturn
    · rename_i busy' c' s' heq
      rw [heq] at hturn
      exact hturn.trans (ih busy' c' s')

/-! ## From the first report to the last -/

/-- A worker that served is on duty, unless its service did not start. -/
theorem says_serve {service : Service (Traced σ)} (hproper : service.Proper w.traced allowed)
    (settings : Settings) (n : Nat) (hnew : c.record.status = .new) (s : Traced σ) :
    let r := serve w.traced service settings n c s
    (∃ said, Says allowed said c s r.2.1 r.2.2) ∧
      (r.2.1.OnDuty ∨ ((service.start c s).1 ≠ .ok () ∧ r.2.1.record.status = .new)) := by
  have hstart := (hproper.start c s).quiet
  unfold serve
  generalize service.start c s = started at hstart
  obtain ⟨result, c', s'⟩ := started
  obtain ⟨hstatus, said, _, hsaid⟩ := hstart
  cases result with
  | error e => exact ⟨⟨said, hsaid⟩, Or.inr ⟨fun h => (nomatch h), hstatus.trans hnew⟩⟩
  | ok =>
    have hmoves : c'.record.status.canBecome .waiting = true := by
      rw [hstatus, hnew]
      rfl
    obtain ⟨hwaiting, said', hsaid', _⟩ := says_transition (w := w) allowed hmoves s'
    dsimp only
    generalize c'.transition w.traced .waiting s' = moved at hwaiting hsaid'
    obtain ⟨result, c'', s''⟩ := moved
    cases result with
    | error e => exact ⟨⟨said ++ said', hsaid.trans hsaid'⟩, Or.inl (Or.inl hwaiting)⟩
    | ok =>
      obtain ⟨hduty, said'', hsaid''⟩ :=
        works_turns hproper settings n false c'' s'' (Or.inl hwaiting)
      exact ⟨⟨_, (hsaid.trans hsaid').trans hsaid''⟩, Or.inl hduty⟩

/-- After its last report a worker says nothing more about its status. -/
theorem quiet_leave {service : Service (Traced σ)} (hproper : service.Proper w.traced allowed)
    (c : Context) (s : Traced σ) :
    let moved := c.transition w.traced .exiting s
    Quiet allowed moved.2.1 moved.2.2 (leave w.traced service c s).1
      (leave w.traced service c s).2 := by
  unfold leave
  generalize c.transition w.traced .exiting s = moved
  obtain ⟨result, c', s'⟩ := moved
  cases result with
  | error e => exact (hproper.stop c' s').quiet
  | ok =>
    have hflushed : Quiet allowed c' s'
        { c' with link := (c'.link.flushBlocking w.traced.host exitFlush s').2.1 }
        (c'.link.flushBlocking w.traced.host exitFlush s').2.2 :=
      quiet_of_silence rfl rfl
        (Client.listens_flushBlocking w.host c'.link exitFlush s').serves.utters
    dsimp only
    generalize c'.link.flushBlocking w.traced.host exitFlush s' = flushed at hflushed
    obtain ⟨_, link, s''⟩ := flushed
    exact hflushed.trans (hproper.stop { c' with link } s'').quiet

/-- A worker that leaves reports its exit, if it was on duty. -/
theorem says_leave {service : Service (Traced σ)} (hproper : service.Proper w.traced allowed)
    (h : c.OnDuty ∨ c.record.status = .new) (s : Traced σ) :
    let r := leave w.traced service c s
    ∃ said, Says allowed said c s r.1 r.2 ∧ (c.OnDuty → c.link.closed = false →
      c.record.status.Path ((reports said).map (·.status)) .exiting) := by
  intro r
  obtain ⟨_, said', hnone, hrest⟩ := quiet_leave hproper c s
  have hmoved : ∃ said, Says allowed said c s (c.transition w.traced .exiting s).2.1
      (c.transition w.traced .exiting s).2.2 ∧ (c.OnDuty → c.link.closed = false →
        c.record.status.Path ((reports said).map (·.status)) .exiting) := by
    rcases h with hduty | hnew
    · have hmoves := hduty.canBecome (Or.inr (Or.inr rfl))
      obtain ⟨_, said, hsaid, hpath⟩ := says_transition (w := w) allowed hmoves s
      exact ⟨said, hsaid, fun _ => hpath⟩
    · rw [transition_of_stuck (by rw [hnew]; rfl)]
      refine ⟨[], .refl allowed c s, fun hduty => ?_⟩
      rcases hduty with h | h <;> cases hnew.symm.trans h
  obtain ⟨said, hsaid, hpath⟩ := hmoved
  refine ⟨said ++ said', hsaid.trans hrest, fun hduty hopen => ?_⟩
  rw [reports_append, hnone, List.append_nil]
  exact hpath hduty hopen

/-- Whatever a worker does until it returns, its reports lead along the status
machine, and they lead to the exit if the service was started and the exit could
be reported. -/
theorem says_run {service : Service (Traced σ)} (hproper : service.Proper w.traced allowed)
    (settings : Settings) (n : Nat) (hnew : c.record.status = .new) (s : Traced σ) :
    let served := serve w.traced service settings n c s
    let ended := run w.traced service settings n c s
    ∃ said, Says allowed said c s ended.2.1 ended.2.2 ∧
      ((service.start c s).1 = .ok () → ended.1 ≠ none → served.2.1.link.closed = false →
        Status.new.Path ((reports said).map (·.status)) .exiting) := by
  obtain ⟨⟨said, hsaid⟩, hduty⟩ := says_serve hproper settings n hnew s
  unfold run
  generalize serve w.traced service settings n c s = served at hsaid hduty
  obtain ⟨result, c', s'⟩ := served
  cases result with
  | none => exact ⟨said, hsaid, fun _ hreturned => absurd rfl hreturned⟩
  | some result =>
    obtain ⟨said', hsaid', hexits⟩ := says_leave hproper (hduty.imp_right And.right) s'
    refine ⟨said ++ said', hsaid.trans hsaid', fun hstarted _ hopen => ?_⟩
    obtain ⟨t, hpath, hstatus⟩ := hsaid.path
    have hserved := hduty.resolve_right fun h => h.1 hstarted
    rw [reports_append, List.map_append]
    rw [hnew, ← hstatus hopen] at hpath
    exact hpath.append (hexits hserved hopen)

/-- A worker that has connected is new, and has said who it is. -/
theorem connected_of_connect {uid : WorkerId} {settings : Settings} {world : σ}
    (h : connect w.traced uid settings (.fresh world) = (.ok c, s)) :
    c.record.status = .new ∧ c.record.uid = uid ∧ c.link.uid = uid ∧
      c.link.account s = handshake uid := by
  unfold connect at h
  split at h
  · cases h
  · rename_i link s' heq
    cases h
    obtain ⟨hclient, haccount, _⟩ := Client.connected_of_connect heq
    exact ⟨rfl, rfl, congrArg Client.uid hclient, haccount⟩

/-! ## The worker and the scheduler agree -/

/-- The worker and the scheduler agree on the status machine.  Whatever the service
does, all that the worker reports is accepted, in its order, by the collection that
took the worker in as new.  The collection may mark the worker terminated at any time
and may do anything to other workers.  If the worker is not marked, its service was
started, it returned, and its connection still took reports when it left, then its
record ends up exiting.

The service may send what is `allowed`.  If that is no status for the scheduler,
then every status on the connection is one of the reports. -/
theorem status_reports_accepted {σ : Type} {w : Station σ} {service : Service (Traced σ)}
    {allowed : Envelope → Prop} (hproper : service.Proper w.traced allowed) {uid : WorkerId}
    {settings : Settings} {world : σ} {c : Context} {s : Traced σ}
    (hconnect : connect w.traced uid settings (.fresh world) = (.ok c, s)) (n : Nat)
    {tracked pool : Collection} {r : Record} (huid : r.uid = uid) (hnew : r.status = .new)
    (hinsert : tracked.insert r = .ok pool) :
    let served := serve w.traced service settings n c s
    let ended := run w.traced service settings n c s
    ∃ said : List Utterance,
      ended.2.1.link.account ended.2.2 =
        handshake uid ++ (said.map (Utterance.envelope uid)).flatMap frame ∧
      (∀ e, .message e ∈ said → allowed e) ∧ (∀ report ∈ reports said, report.uid = uid) ∧
      ∀ ops : List Operation, (∀ op ∈ ops, op.Keeps uid) → reportsOf uid ops <+: reports said →
        ∃ t, pool.Brings uid ops t ∧ (marked uid ops = true → t = .terminated) ∧
          (marked uid ops = false → reportsOf uid ops = reports said →
            (service.start c s).1 = .ok () → ended.1 ≠ none → served.2.1.link.closed = false →
              t = .exiting) := by
  intro served ended
  obtain ⟨hstatus, hrecord, hlink, haccount⟩ := connected_of_connect hconnect
  obtain ⟨said, hsaid, hexits⟩ := says_run hproper settings n hstatus s
  have hutters := hsaid.utters
  rw [hlink] at hutters
  have hown : ∀ report ∈ reports said, report.uid = uid := fun report hreport =>
    (hsaid.own report hreport).trans hrecord
  refine ⟨said, haccount ▸ hutters.account, hsaid.others, hown, fun ops hops hreports => ?_⟩
  obtain ⟨t, hpath, _⟩ := hsaid.path
  rw [hstatus, ← hnew] at hpath
  -- the reports that have come so far are the beginning of a path
  obtain ⟨later, hlater⟩ := hreports
  obtain ⟨t', hpath'⟩ : ∃ t', r.status.Path ((reportsOf uid ops).map (·.status)) t' := by
    rw [← hlater, List.map_append] at hpath
    exact hpath.left
  have hfind : pool.find? uid = some r := by
    rw [(Collection.insert_eq_ok hinsert).1, Collection.find?_put, if_pos huid.symm]
  refine ⟨_, Collection.brings_of_path hops hfind hpath', fun hmarked => if_pos hmarked, ?_⟩
  intro hunmarked hall hstart hreturned hopen
  have hexit := hexits hstart hreturned hopen
  rw [hall, hnew] at hpath'
  rw [hunmarked]
  exact hpath'.unique hexit

/-- A service that is busy in its first step and has finished a task in its second. -/
def shift : Service (Traced (Nat × Poll.Script)) where
  start c s := (.ok (), c.describe "at work", s)
  step c s :=
    if s.bare.1 = 0 then (.ok .busy, c, s.swap (1, s.bare.2)) else (.ok .finished, c, s)

def site : Station (Nat × Poll.Script) where
  host := Bus.dialing
  asked _ := false

theorem proper_shift : shift.Proper site.traced fun _ => False where
  start _ _ := .describe "at work" .nothing
  step c s := by
    unfold shift
    dsimp only
    split
    · exact .outside .nothing rfl
    · exact .nothing
  onMessage _ _ _ := .nothing
  stop _ _ := .nothing

/-- A worker that may finish one task.  It waits, runs, waits again and exits. -/
theorem status_reports_accepted_one_task :
    let settings : Settings := ⟨"shift", .v4 ⟨127, 0, 0, 1⟩ 4000, 1, .zero⟩
    let start : Record := .create 0 ⟨2⟩ "shift" 0
    let pool : Collection := (Collection.empty 1).put start
    ∃ c s, connect site.traced ⟨2⟩ settings (.fresh (0, { room := 1000 })) = (.ok c, s) ∧
      (shift.start c s).1 = .ok () ∧
      let ended := run site.traced shift settings 5 c s
      ended.1 = some (.ok 0) ∧
      ∃ said : List Utterance,
        ended.2.1.link.account ended.2.2 =
          handshake ⟨2⟩ ++ (said.map (Utterance.envelope ⟨2⟩)).flatMap frame ∧
        ∀ ops : List Operation, (∀ op ∈ ops, op.Keeps ⟨2⟩) → reportsOf ⟨2⟩ ops <+: reports said →
          ∃ t, pool.Brings ⟨2⟩ ops t ∧ (marked ⟨2⟩ ops = true → t = .terminated) ∧
            (marked ⟨2⟩ ops = false → reportsOf ⟨2⟩ ops = reports said → t = .exiting) := by
  intro settings start pool
  let c : Context := { record := start, link := { uid := ⟨2⟩, stream := ⟨7⟩ } }
  let s : Traced (Nat × Poll.Script) := (((0, { room := 998 }), []), [(⟨7⟩, handshake ⟨2⟩)])
  have hconnect : connect site.traced ⟨2⟩ settings (.fresh (0, { room := 1000 })) =
      (.ok c, s) := by decide +kernel
  have hended : (run site.traced shift settings 5 c s).1 = some (.ok 0) := by decide +kernel
  have hopen : (serve site.traced shift settings 5 c s).2.1.link.closed = false := by
    decide +kernel
  have hinsert : (Collection.empty 1).insert start = .ok pool := by decide +kernel
  obtain ⟨said, haccount, _, _, hruns⟩ :=
    status_reports_accepted proper_shift hconnect 5 rfl rfl hinsert
  refine ⟨c, s, hconnect, rfl, hended, said, haccount, fun ops hops hreports => ?_⟩
  obtain ⟨t, hbrings, hmarked, hexits⟩ := hruns ops hops hreports
  refine ⟨t, hbrings, hmarked, fun hunmarked hall => ?_⟩
  exact hexits hunmarked hall rfl (by rw [hended]; exact fun h => nomatch h) hopen

end Supervisor.Worker
