import Supervisor.Proofs.Bus.Link
import Supervisor.Proofs.Wire.Cuts

/-!
# What a client receives, one after another

Two sources feed a client: the notes that it sends to itself, and the frames
that its connection delivers.  This module says what a client makes of them
over time, call by call and with the errors that calls end in.

* `Within`: no frame among some bytes is too long, and neither is the one that
  is under way.
* `Reads`: some frames were taken off the bytes that were read, and the rest is
  still with the client.  `Takes` is what a call does to that, and `Concludes`
  how a call ends that found no note.
* A `Dialogue` is a session that keeps the answers of all calls.  `InTurn` is
  what was taken in it, note by note and frame by frame.
* `notes_and_frames_in_turn` puts the three together.
-/

namespace Supervisor.Bus

open Poll (Host Traced)
open Wire (Bytes FrameBuffer Splits terminator unpack)

/-! ## Frames within a limit -/

/-- No frame among the bytes is too long, nor is the one that they end in. -/
def Within (limit : Nat) (b : Bytes) : Prop :=
  ∀ frames rest, Splits b frames rest →
    (∀ f ∈ frames, f.length ≤ limit) ∧ rest.length ≤ limit

/-- What is within the limit was so at any time before. -/
theorem Within.of_prefix {limit : Nat} {b b' : Bytes} (h : Within limit b') (hb : b <+: b') :
    Within limit b := by
  obtain ⟨more, rfl⟩ := hb
  intro frames rest hsplits
  obtain ⟨frames', rest', hmore⟩ := FrameBuffer.exists_splits (rest ++ more)
  obtain ⟨hall, hlast⟩ := h _ _ (hsplits.append hmore)
  refine ⟨fun f hf => hall f (List.mem_append_left _ hf), ?_⟩
  exact hmore.length_beginning hsplits.unfinished
    (fun f hf => hall f (List.mem_append_right _ hf)) hlast

/-- Few bytes hold no long frames. -/
theorem within_of_length {limit : Nat} {b : Bytes} (h : b.length ≤ limit) : Within limit b := by
  intro frames rest hsplits
  rw [← hsplits.joined, List.length_append] at h
  refine ⟨fun f hf => ?_, Nat.le_trans (Nat.le_add_left _ _) h⟩
  have hmem : f ++ [terminator] ∈ frames.map (· ++ [terminator]) := List.mem_map_of_mem hf
  calc f.length ≤ (f ++ [terminator]).length := by simp
    _ ≤ (frames.flatMap (· ++ [terminator])).length :=
      (List.sublist_flatten_of_mem hmem).length_le
    _ ≤ limit := Nat.le_trans (Nat.le_add_right _ _) h

namespace Client

variable {σ : Type} {host : Host σ} {c c' c'' : Client} {s s' s'' : Traced σ}
  {fs fs' : List Bytes}

/-! ## Taking frames -/

/-- The client took these frames off the bytes that it read, and has the rest. -/
structure Reads (fs : List Bytes) (c : Client) (s : Traced σ) : Prop where
  heard : s.heard c.stream = fs.flatMap (· ++ [terminator]) ++ c.reader.unparsed
  whole : ∀ f ∈ fs, terminator ∉ f
  tidy : c.reader.Tidy
  limit : c.reader.limit = FrameBuffer.defaultLimit

/-- The bytes that were read are the frames that were taken and those that were
not. -/
theorem Reads.splits {rest : Bytes} (h : Reads fs c s) (hrest : Splits c.reader.unparsed fs' rest) :
    Splits (s.heard c.stream) (fs ++ fs') rest where
  joined := by rw [List.flatMap_append, List.append_assoc, hrest.joined, h.heard]
  whole := List.forall_mem_append.mpr ⟨h.whole, hrest.whole⟩
  unfinished := hrest.unfinished

/-- A frame that is under way is within the limit. -/
theorem Reads.length_unparsed (h : Reads fs c s)
    (hwithin : Within FrameBuffer.defaultLimit (s.heard c.stream))
    (hover : terminator ∉ c.reader.unparsed) : c.reader.unparsed.length ≤ c.reader.limit := by
  rw [h.limit]
  exact (hwithin _ _ (h.splits (.of_notMem hover))).2

/-- The client reads and writes, and takes these frames. -/
structure Takes (fs : List Bytes) (c : Client) (s : Traced σ) (c' : Client) (s' : Traced σ) :
    Prop where
  serves : Serves c s c' s'
  reads : ∀ {before : List Bytes}, Reads before c s → Reads (before ++ fs) c' s'

theorem Takes.trans (h : Takes fs c s c' s') (h' : Takes fs' c' s' c'' s'') :
    Takes (fs ++ fs') c s c'' s'' where
  serves := h.serves.trans h'.serves
  reads hreads := by
    rw [← List.append_assoc]
    exact h'.reads (h.reads hreads)

theorem Writes.takes (h : Writes c s c' s') : Takes [] c s c' s' where
  serves := h.serves
  reads hreads := by
    rw [List.append_nil]
    exact ⟨by rw [h.serves.stream, h.heard, h.reader, hreads.heard], hreads.whole,
      h.reader ▸ hreads.tidy, h.reader ▸ hreads.limit⟩

/-- What arrives is added to what was read. -/
theorem takes_fill (host : Host σ) (c : Client) (s : Traced σ) :
    Takes [] c s (c.fill host.traced s).1 (c.fill host.traced s).2 := by
  obtain ⟨hserves, more, hreader, hmore⟩ := serves_fill host c s
  refine ⟨hserves, fun hreads => ?_⟩
  rw [List.append_nil]
  refine ⟨?_, hreads.whole, hreader ▸ hreads.tidy.feed more, hreader ▸ hreads.limit⟩
  rw [hserves.stream, hreader, hreads.tidy.unparsed_feed, hmore, hreads.heard, List.append_assoc]

/-- What a call to receive answers. -/
abbrev Answer := Except Error (Option Envelope)

/-- How a call ends that found no note: with a frame, which may not decode, or
without one, and then there is none unless the call just waited. -/
inductive Concludes (c : Client) : Answer → List Bytes → Prop where
  | frame (f : Bytes) : Concludes c ((unpack f).map some) [f]
  | waited : Concludes c (.ok none) []
  | failed (failure : Failure) (action : String) : Concludes c (.error (.io failure action)) []
  | closed : terminator ∉ c.reader.unparsed → Concludes c (.error .channelClosed) []
  | overlong : terminator ∉ c.reader.unparsed → c.reader.limit < c.reader.unparsed.length →
      Concludes c (.error (.protocol .frameTooLong)) []

/-- A frame that is there is taken, whether it decodes or not. -/
theorem lastEnvelope_of_frame {f b : Bytes} (h : c.reader.unparsed = f ++ terminator :: b)
    (hf : terminator ∉ f) (s : Traced σ) :
    c.lastEnvelope.1 = (unpack f).map some ∧ Takes [f] c s c.lastEnvelope.2 s := by
  obtain ⟨hnext, hunparsed⟩ := FrameBuffer.nextFrame_of_terminated hf h
  have hlast : c.lastEnvelope =
      ((unpack f).map some, { c with reader := c.reader.consume (f.length + 1) }) := by
    unfold lastEnvelope nextEnvelope
    rw [hnext]
    dsimp only
    cases (unpack f : Except Error Envelope) with
    | ok e => rfl
    | error e => rfl
  rw [hlast]
  refine ⟨rfl, ⟨rfl, rfl, rfl, id, rfl, List.prefix_rfl⟩, fun hreads => ⟨?_, ?_, ?_, ?_⟩⟩
  · show s.heard c.stream = _ ++ (c.reader.consume (f.length + 1)).unparsed
    rw [hunparsed, hreads.heard, h, List.flatMap_append]
    simp
  · exact List.forall_mem_append.mpr ⟨hreads.whole, List.forall_mem_singleton.mpr hf⟩
  · exact FrameBuffer.tidy_consume _ _
  · exact (FrameBuffer.limit_consume _ _).trans hreads.limit

/-- Without a frame nothing changes. -/
theorem lastEnvelope_of_unfinished (h : terminator ∉ c.reader.unparsed) :
    c.lastEnvelope.2 = c ∧ Concludes c c.lastEnvelope.1 [] := by
  unfold lastEnvelope nextEnvelope
  rcases Nat.lt_or_ge c.reader.limit c.reader.unparsed.length with hlong | hshort
  · rw [FrameBuffer.nextFrame_of_overlong h hlong]
    exact ⟨rfl, .overlong h hlong⟩
  · rw [FrameBuffer.nextFrame_of_unterminated h hshort]
    dsimp only
    split
    · exact ⟨rfl, .closed h⟩
    · exact ⟨rfl, .waited⟩

theorem lastEnvelope_concludes (c : Client) (s : Traced σ) :
    ∃ fs, Takes fs c s c.lastEnvelope.2 s ∧ Concludes c.lastEnvelope.2 c.lastEnvelope.1 fs := by
  by_cases hmem : terminator ∈ c.reader.unparsed
  · obtain ⟨f, b, hunparsed, hf⟩ := List.eq_append_cons_of_mem hmem
    obtain ⟨hanswer, htakes⟩ := lastEnvelope_of_frame hunparsed hf s
    exact ⟨[f], htakes, hanswer ▸ .frame f⟩
  · obtain ⟨hsame, hconcludes⟩ := lastEnvelope_of_unfinished hmem
    rw [hsame]
    exact ⟨[], (Writes.refl c s).takes, hconcludes⟩

/-! ## Failures of the connection -/

/-- Writing fails because the connection is gone, or as the system says. -/
theorem error_of_flush {τ : Type} {host : Host τ} {t : τ} {e : Error}
    (h : (c.flush host t).1 = .error e) :
    e = .channelClosed ∨ ∃ failure action, e = .io failure action := by
  unfold flush at h
  dsimp only at h
  split at h
  · cases h
  · split at h
    · exact .inl (Except.error.inj h).symm
    · exact .inl (Except.error.inj h).symm
    · exact .inl (Except.error.inj h).symm
    · exact .inr ⟨_, _, (Except.error.inj h).symm⟩

/-- What a poll says is done and no frame is taken; if that fails, then nothing
was read. -/
theorem attend_cases (host : Host σ) (c : Client) (r : Poll.Readiness) (s : Traced σ) :
    let out := c.attend host.traced r s
    (out.1 = .ok () ∧ Takes [] c s out.2.1 out.2.2) ∨
      (Writes c s out.2.1 out.2.2 ∧ (out.1 = .error .channelClosed ∨
        ∃ failure action, out.1 = .error (.io failure action))) := by
  have hwritten : Writes c s
      (if r.writable then c.flush host.traced s else (.ok (), c, s)).2.1
      (if r.writable then c.flush host.traced s else (.ok (), c, s)).2.2 := by
    split
    · exact writes_flush host c s
    · exact .refl c s
  have herror : ∀ e, (if r.writable then c.flush host.traced s else (.ok (), c, s)).1 = .error e →
      e = .channelClosed ∨ ∃ failure action, e = .io failure action := by
    intro e
    split
    · exact error_of_flush
    · exact nofun
  unfold attend
  generalize (if r.writable then c.flush host.traced s else (.ok (), c, s)) = written
    at hwritten herror
  obtain ⟨result, c', s'⟩ := written
  cases result with
  | error e =>
    refine .inr ⟨hwritten, ?_⟩
    rcases herror e rfl with rfl | ⟨failure, action, rfl⟩
    · exact .inl rfl
    · exact .inr ⟨failure, action, rfl⟩
  | ok _ =>
    left
    dsimp only
    split
    · exact ⟨rfl, hwritten.takes.trans (takes_fill host c' s')⟩
    · exact ⟨rfl, hwritten.takes⟩

/-! ## One call -/

theorem receive_of_note {e : Envelope} {waiting : List Envelope} (h : c.ownMail = e :: waiting)
    (host : Host σ) (timeout : Duration) (s : Traced σ) :
    c.receive host.traced timeout s = (.ok (some e), { c with ownMail := waiting }, s) := by
  unfold receive
  rw [h]

/-- Without a note a call takes the next frame, and waits only if there is none. -/
theorem receive_of_frame {f b : Bytes} (hown : c.ownMail = [])
    (h : c.reader.unparsed = f ++ terminator :: b) (hf : terminator ∉ f) (host : Host σ)
    (timeout : Duration) (s : Traced σ) :
    c.receive host.traced timeout s = ((unpack f).map some, c.lastEnvelope.2, s) := by
  obtain ⟨hanswer, -⟩ := lastEnvelope_of_frame h hf s
  unfold receive
  rw [hown]
  dsimp only
  generalize c.lastEnvelope = last at hanswer ⊢
  obtain ⟨answer, c'⟩ := last
  dsimp only at hanswer
  rw [hanswer]
  cases (unpack f : Except Error Envelope) with
  | ok e => rfl
  | error e => rfl

theorem receive_concludes (host : Host σ) (timeout : Duration) (s : Traced σ)
    (hown : c.ownMail = []) :
    let r := c.receive host.traced timeout s
    ∃ fs, Takes fs c s r.2.1 r.2.2 ∧ Concludes r.2.1 r.1 fs := by
  by_cases hmem : terminator ∈ c.reader.unparsed
  · obtain ⟨f, b, hunparsed, hf⟩ := List.eq_append_cons_of_mem hmem
    rw [receive_of_frame hown hunparsed hf]
    exact ⟨[f], (lastEnvelope_of_frame hunparsed hf s).2, .frame f⟩
  · obtain ⟨hsame, hconcludes⟩ := lastEnvelope_of_unfinished hmem
    unfold receive
    rw [hown]
    dsimp only
    split
    · rename_i c' heq
      have hc' : c' = c := by rw [← hsame, heq]
      subst hc'
      have hwait := sameTapes_wait host c' timeout s
      generalize c'.wait host.traced timeout s = waited at hwait
      obtain ⟨result, s'⟩ := waited
      have hwaited : Writes c' s c' s' := .of_sameTapes hwait c'
      cases result with
      | interrupted => exact ⟨[], hwaited.takes, .waited⟩
      | failed failure => exact ⟨[], hwaited.takes, .failed _ _⟩
      | reported report =>
        dsimp only
        have hattend := attend_cases host c' (report c'.stream) s'
        generalize c'.attend host.traced (report c'.stream) s' = attended at hattend
        obtain ⟨result, c'', s''⟩ := attended
        rcases hattend with ⟨hok, htakes⟩ | ⟨hwrites, hgone | ⟨failure, action, hfailed⟩⟩
        · dsimp only at hok
          rw [hok]
          obtain ⟨fs, hlast, hconcludes'⟩ := lastEnvelope_concludes c'' s''
          exact ⟨fs, (hwaited.takes.trans htakes).trans hlast, hconcludes'⟩
        · dsimp only at hgone
          rw [hgone]
          exact ⟨[], (hwaited.trans hwrites).takes, .closed (hwrites.reader ▸ hmem)⟩
        · dsimp only at hfailed
          rw [hfailed]
          exact ⟨[], (hwaited.trans hwrites).takes, .failed _ _⟩
    · rename_i answer c' _ heq
      rw [heq] at hsame hconcludes
      dsimp only at hsame hconcludes ⊢
      rw [hsame]
      exact ⟨[], (Writes.refl c s).takes, hconcludes⟩

/-! ## What calls took -/

/-- What a call took: an envelope, or a frame that is none.  A call that just
waited took nothing, nor did one that met the end of the connection. -/
def uptake : Answer → Option (Except Error Envelope)
  | .ok e => e.map .ok
  | .error .channelClosed => none
  | .error (.io _ _) => none
  | .error e => some (.error e)

/-- A frame that does not decode breaks the protocol or holds no value. -/
theorem error_of_unpack {α : Type} [Wire.Packable α] {f : Bytes} {e : Error}
    (h : (unpack f : Except Error α) = .error e) :
    (∃ breach, e = .protocol breach) ∨ ∃ fault, e = .codec fault := by
  have hbytes : ∀ b, (Wire.unpackBytes b : Except Error α) = .error e → ∃ fault, e = .codec fault := by
    intro b hb
    unfold Wire.unpackBytes at hb
    split at hb
    · cases hb
    · exact ⟨_, (Except.error.inj hb).symm⟩
  unfold unpack at h
  grind

theorem uptake_unpack (f : Bytes) : uptake ((unpack f).map some) = some (unpack f) := by
  cases hunpack : (unpack f : Except Error Envelope) with
  | ok e => rfl
  | error e =>
    rcases error_of_unpack hunpack with ⟨breach, rfl⟩ | ⟨fault, rfl⟩
    · rfl
    · rfl

/-- Within the limit, a call takes what it finds or nothing. -/
theorem Concludes.uptake_eq {answer : Answer} (h : Concludes c answer fs)
    (hshort : terminator ∉ c.reader.unparsed → c.reader.unparsed.length ≤ c.reader.limit) :
    (fs = [] ∧ uptake answer = none) ∨ ∃ f, fs = [f] ∧ uptake answer = some (unpack f) := by
  cases h with
  | frame f => exact .inr ⟨f, rfl, uptake_unpack f⟩
  | waited => exact .inl ⟨rfl, rfl⟩
  | failed failure action => exact .inl ⟨rfl, rfl⟩
  | closed hover => exact .inl ⟨rfl, rfl⟩
  | overlong hover hlong => exact absurd hlong (Nat.not_lt.mpr (hshort hover))

theorem filterMap_uptake_concat (answers : List Answer) (answer : Answer) :
    (answers ++ [answer]).filterMap uptake =
      answers.filterMap uptake ++ (uptake answer).toList := by
  rw [List.filterMap_append]
  cases huptake : uptake answer with
  | none => simp [huptake]
  | some taken => simp [huptake]

/-- What was taken, one after another: these notes and what these frames hold,
each of them once and both in their order. -/
inductive InTurn : List Envelope → List Bytes → List (Except Error Envelope) → Prop where
  | nothing : InTurn [] [] []
  | note {notes : List Envelope} {fs : List Bytes} {taken : List (Except Error Envelope)}
      (e : Envelope) : InTurn notes fs taken → InTurn (notes ++ [e]) fs (taken ++ [.ok e])
  | frame {notes : List Envelope} {fs : List Bytes} {taken : List (Except Error Envelope)}
      (f : Bytes) : InTurn notes fs taken → InTurn notes (fs ++ [f]) (taken ++ [unpack f])

/-- The envelopes that a client sent to itself. -/
def notes (sent : List Envelope) : List Envelope :=
  sent.filter fun e => e.audience = .sender

theorem notes_concat (sent : List Envelope) (e : Envelope) :
    notes (sent ++ [e]) = notes sent ++ if e.audience = .sender then [e] else [] := by
  unfold notes
  rw [List.filter_append]
  split
  · rename_i h
    simp [h]
  · rename_i h
    simp [h]

/-! ## Dialogues -/

/-- What a client is called to do over time, as in a `Session`, with what it
sent and with what each call to receive answered. -/
inductive Dialogue (host : Host σ) (uid : WorkerId) :
    List Envelope → List Answer → Client → Traced σ → Prop where
  | connect {address : Address} {timeout : Duration} {world : σ} {c : Client} {s : Traced σ} :
      Client.connect host.traced address uid timeout (.fresh world) = (.ok c, s) →
      Dialogue host uid [] [] c s
  | send {sent : List Envelope} {answers : List Answer} {c : Client} {s : Traced σ}
      (audience : Audience) (number : UInt64) (message : Message) :
      Dialogue host uid sent answers c s →
      Dialogue host uid (sent ++ [⟨uid, audience, number, message⟩]) answers
        (c.send host.traced audience number message s).2.1
        (c.send host.traced audience number message s).2.2
  | receive {sent : List Envelope} {answers : List Answer} {c : Client} {s : Traced σ}
      (timeout : Duration) : Dialogue host uid sent answers c s →
      Dialogue host uid sent (answers ++ [(c.receive host.traced timeout s).1])
        (c.receive host.traced timeout s).2.1 (c.receive host.traced timeout s).2.2
  | flush {sent : List Envelope} {answers : List Answer} {c : Client} {s : Traced σ} :
      Dialogue host uid sent answers c s →
      Dialogue host uid sent answers (c.flush host.traced s).2.1 (c.flush host.traced s).2.2
  | flushBlocking {sent : List Envelope} {answers : List Answer} {c : Client} {s : Traced σ}
      (timeout : Duration) : Dialogue host uid sent answers c s →
      Dialogue host uid sent answers (c.flushBlocking host.traced timeout s).2.1
        (c.flushBlocking host.traced timeout s).2.2
  | outside {sent : List Envelope} {answers : List Answer} {c : Client} {s : Traced σ}
      (world : σ) : Dialogue host uid sent answers c s →
      Dialogue host uid sent answers c (s.swap world)

variable {uid : WorkerId} {sent : List Envelope} {answers : List Answer}

theorem Dialogue.session (h : Dialogue host uid sent answers c s) :
    Session host uid sent (answers.flatMap arrived) c s := by
  induction h with
  | connect hconnect => exact .connect hconnect
  | send audience number message _ ih => exact ih.send audience number message
  | receive timeout _ ih =>
    rw [List.flatMap_append, List.flatMap_singleton]
    exact ih.receive timeout
  | flush _ ih => exact ih.flush
  | flushBlocking timeout _ ih => exact ih.flushBlocking timeout
  | outside world _ ih => exact ih.outside world

/-- All notes that were sent and all bytes that were read were taken or are
still with the client. -/
def Keeps (sent : List Envelope) (answers : List Answer) (c : Client) (s : Traced σ) : Prop :=
  ∃ noted fs, InTurn noted fs (answers.filterMap uptake) ∧ notes sent = noted ++ c.ownMail ∧
    Reads fs c s

theorem Takes.keeps (h : Takes [] c s c' s') (hkeeps : Keeps sent answers c s) :
    Keeps sent answers c' s' := by
  obtain ⟨noted, fs, hturn, hnotes, hreads⟩ := hkeeps
  have hreads' := h.reads hreads
  rw [List.append_nil] at hreads'
  exact ⟨noted, fs, hturn, h.serves.ownMail ▸ hnotes, hreads'⟩

theorem Keeps.send (h : Keeps sent answers c s) (huid : c.uid = uid) (audience : Audience)
    (number : UInt64) (message : Message) :
    Keeps (sent ++ [⟨uid, audience, number, message⟩]) answers
      (c.send host.traced audience number message s).2.1
      (c.send host.traced audience number message s).2.2 := by
  obtain ⟨noted, fs, hturn, hnotes, hreads⟩ := h
  have hconcat := notes_concat sent ⟨uid, audience, number, message⟩
  rcases send_cases host c audience number message s
    with ⟨hself, heq⟩ | ⟨hother, _, heq⟩ | ⟨hother, _, hwrites⟩
  · rw [if_pos hself] at hconcat
    rw [heq]
    refine ⟨noted, fs, hturn, ?_, hreads.heard, hreads.whole, hreads.tidy, hreads.limit⟩
    rw [hconcat, hnotes, List.append_assoc, huid]
  · rw [if_neg hother, List.append_nil] at hconcat
    rw [heq]
    exact ⟨noted, fs, hturn, hconcat.trans hnotes, hreads⟩
  · rw [if_neg hother, List.append_nil] at hconcat
    exact hwrites.takes.keeps ⟨noted, fs, hturn, hconcat.trans hnotes, hreads.heard,
      hreads.whole, hreads.tidy, hreads.limit⟩

/-- A call takes a note, or else a frame, or nothing. -/
theorem Keeps.receive (h : Keeps sent answers c s) (timeout : Duration)
    (hwithin : Within FrameBuffer.defaultLimit
      ((c.receive host.traced timeout s).2.2.heard c.stream)) :
    Keeps sent (answers ++ [(c.receive host.traced timeout s).1])
      (c.receive host.traced timeout s).2.1 (c.receive host.traced timeout s).2.2 := by
  obtain ⟨noted, fs, hturn, hnotes, hreads⟩ := h
  cases hown : c.ownMail with
  | cons e waiting =>
    rw [receive_of_note hown]
    refine ⟨noted ++ [e], fs, ?_, ?_, hreads.heard, hreads.whole, hreads.tidy, hreads.limit⟩
    · rw [filterMap_uptake_concat]
      exact hturn.note e
    · rw [hnotes, hown, List.append_assoc]
      rfl
  | nil =>
    obtain ⟨fs', htakes, hconcludes⟩ := receive_concludes host timeout s hown
    have hreads' := htakes.reads hreads
    have hnotes' := htakes.serves.ownMail ▸ hnotes
    rw [← htakes.serves.stream] at hwithin
    have hshort := hreads'.length_unparsed hwithin
    refine ⟨noted, fs ++ fs', ?_, hnotes', hreads'⟩
    rw [filterMap_uptake_concat]
    rcases hconcludes.uptake_eq hshort with ⟨hfs', hnone⟩ | ⟨f, hfs', hsome⟩
    · rw [hfs', hnone, Option.toList_none, List.append_nil, List.append_nil]
      exact hturn
    · rw [hfs', hsome]
      exact hturn.frame f

/-- What is read is never forgotten. -/
theorem Dialogue.keeps (h : Dialogue host uid sent answers c s)
    (hwithin : Within FrameBuffer.defaultLimit (s.heard c.stream)) : Keeps sent answers c s := by
  induction h with
  | connect hconnect =>
    obtain ⟨hclient, -, hheard⟩ := connected_of_connect hconnect
    refine ⟨[], [], .nothing, ?_, ?_, nofun, ?_, ?_⟩
    · rw [hclient]
      rfl
    · rw [hheard, hclient]
      rfl
    · rw [hclient]
      exact FrameBuffer.tidy_empty _
    · rw [hclient]
      rfl
  | @send _ _ c s audience number message hsofar ih =>
    refine Keeps.send (ih ?_) hsofar.session.linked.named audience number message
    rcases send_cases host c audience number message s with
      ⟨_, heq⟩ | ⟨_, _, heq⟩ | ⟨_, _, hwrites⟩
    · rwa [heq] at hwithin
    · rwa [heq] at hwithin
    · rwa [hwrites.heard, hwrites.serves.stream] at hwithin
  | @receive _ _ c s timeout _ ih =>
    have hserves : (c.receive host.traced timeout s).2.1.stream = c.stream ∧
        s.heard c.stream <+: (c.receive host.traced timeout s).2.2.heard c.stream := by
      rcases receive_cases host c timeout s with ⟨e, rest, _, heq⟩ | hlistens
      · rw [heq]
        exact ⟨rfl, List.prefix_rfl⟩
      · exact ⟨hlistens.serves.stream, hlistens.serves.heard⟩
    rw [hserves.1] at hwithin
    exact (ih (hwithin.of_prefix hserves.2)).receive timeout hwithin
  | @flush _ _ c s _ ih =>
    have hwrites := writes_flush host c s
    rw [hwrites.heard, hwrites.serves.stream] at hwithin
    exact hwrites.takes.keeps (ih hwithin)
  | @flushBlocking _ _ c s timeout _ ih =>
    have hwrites := writes_flushBlocking host c timeout s
    rw [hwrites.heard, hwrites.serves.stream] at hwithin
    exact hwrites.takes.keeps (ih hwithin)
  | @outside _ _ c s world _ ih =>
    have hsame : s.SameTapes (s.swap world) := ⟨rfl, rfl⟩
    exact (Writes.of_sameTapes hsame c).takes.keeps (ih hwithin)

/-- A call that finds the connection at its end left no frame. -/
theorem Concludes.of_closed {answer : Answer} (h : Concludes c answer fs)
    (hanswer : answer = .error .channelClosed) : fs = [] ∧ terminator ∉ c.reader.unparsed := by
  cases h with
  | frame f =>
    have huptake := uptake_unpack f
    rw [hanswer] at huptake
    cases huptake
  | closed hover => exact ⟨rfl, hover⟩
  | waited => cases hanswer
  | failed failure action => cases hanswer
  | overlong hover hlong => cases hanswer

/-- What a client received, at any time and however its connection behaved.
The calls took the first of the notes that it sent to itself and the first of
the frames among the bytes that it read, each once and in their order, and
every frame that does not decode as one error.  The next call takes the next
note if there is one, and else the next frame.  It fails because the connection
is closed only if there is neither, also after what it read itself. -/
theorem notes_and_frames_in_turn (h : Dialogue host uid sent answers c s)
    (hwithin : Within FrameBuffer.defaultLimit (s.heard c.stream)) :
    ∃ noted fs left rest,
      InTurn noted fs (answers.filterMap uptake) ∧
      notes sent = noted ++ c.ownMail ∧
      Splits (s.heard c.stream) (fs ++ left) rest ∧
      ∀ timeout,
        let r := c.receive host.traced timeout s
        (∀ e waiting, c.ownMail = e :: waiting → r.1 = .ok (some e)) ∧
        (c.ownMail = [] → ∀ f later, left = f :: later → r.1 = (unpack f).map some) ∧
        (r.1 = .error .channelClosed →
          c.ownMail = [] ∧ left = [] ∧ ∃ rest', Splits (r.2.2.heard c.stream) fs rest') := by
  obtain ⟨noted, fs, hturn, hnotes, hreads⟩ := h.keeps hwithin
  obtain ⟨left, rest, hleft⟩ := FrameBuffer.exists_splits c.reader.unparsed
  refine ⟨noted, fs, left, rest, hturn, hnotes, hreads.splits hleft, fun timeout => ?_⟩
  have hnext : c.ownMail = [] → ∀ f later, left = f :: later →
      (c.receive host.traced timeout s).1 = (unpack f).map some := by
    rintro hown f later rfl
    obtain ⟨b, hunparsed, -⟩ := hleft.joined_cons
    have hf : terminator ∉ f := hleft.whole f List.mem_cons_self
    rw [receive_of_frame hown hunparsed hf]
  refine ⟨fun e waiting hown => ?_, hnext, fun hclosed => ?_⟩
  · rw [receive_of_note hown]
  · cases hown : c.ownMail with
    | cons e waiting =>
      rw [receive_of_note hown] at hclosed
      cases hclosed
    | nil =>
      obtain ⟨fs', htakes, hconcludes⟩ := receive_concludes host timeout s hown
      obtain ⟨rfl, hover⟩ := hconcludes.of_closed hclosed
      refine ⟨rfl, ?_, ?_⟩
      · cases left with
        | nil => rfl
        | cons f later =>
          have huptake := uptake_unpack f
          rw [← hnext hown f later rfl, hclosed] at huptake
          cases huptake
      · have hsplits := (htakes.reads hreads).splits (.of_notMem hover)
        rw [List.append_nil, List.append_nil, htakes.serves.stream] at hsplits
        exact ⟨_, hsplits⟩

/-! ## A dialogue with a garbled frame -/

namespace Garbled

/-- What another worker sends. -/
def one : Envelope := ⟨⟨2⟩, .selected, 3, .text "one"⟩

/-- A frame that does not decode, and the one of the other worker. -/
def bytes : Bytes := [0x7f, terminator] ++ Wire.frame one

/-- Worker 3 as it is connected, and its world. -/
def joined : Client × Traced (Nat × Poll.Script) :=
  ({ uid := ⟨3⟩, stream := ⟨7⟩ }, ((0, {}), []), [(⟨7⟩, Wire.handshake ⟨3⟩)])

/-- The worker sends itself a note, and then the bytes are there. -/
def reminded : Client × Traced (Nat × Poll.Script) :=
  let sent := (joined.1.send dialing.traced .sender 0 (.text "first") joined.2).2
  (sent.1, sent.2.swap (0, { arriving := [(⟨7⟩, bytes)] }))

def first : Answer × Client × Traced (Nat × Poll.Script) :=
  reminded.1.receive dialing.traced .zero reminded.2

def second : Answer × Client × Traced (Nat × Poll.Script) :=
  first.2.1.receive dialing.traced .zero first.2.2

/-- Another note, after the bytes were read. -/
def third : Answer × Client × Traced (Nat × Poll.Script) :=
  let sent := (second.2.1.send dialing.traced .sender 0 (.text "second") second.2.2).2
  sent.1.receive dialing.traced .zero sent.2

def fourth : Answer × Client × Traced (Nat × Poll.Script) :=
  third.2.1.receive dialing.traced .zero third.2.2

theorem dialogue : Dialogue dialing ⟨3⟩
    [⟨⟨3⟩, .sender, 0, .text "first"⟩, ⟨⟨3⟩, .sender, 0, .text "second"⟩]
    [first.1, second.1, third.1, fourth.1] fourth.2.1 fourth.2.2 := by
  have hjoined : Client.connect dialing.traced (.v4 ⟨127, 0, 0, 1⟩ 4000) ⟨3⟩ .zero
      (.fresh (0, { room := 2 })) = (.ok joined.1, joined.2) := by decide +kernel
  have hreminded := ((Dialogue.connect hjoined).send .sender 0 (.text "first")).outside
    (0, { arriving := [(⟨7⟩, bytes)] })
  have hread := (hreminded.receive .zero).receive .zero
  exact ((hread.send .sender 0 (.text "second")).receive .zero).receive .zero

end Garbled

/-- The note goes first, then the frame that does not decode.  The second note
comes before the frame that waits. -/
theorem notes_and_frames_in_turn_garbled :
    ∃ noted fs left rest,
      InTurn noted fs [.ok ⟨⟨3⟩, .sender, 0, .text "first"⟩, .error (.protocol .unknownPrefix),
        .ok ⟨⟨3⟩, .sender, 0, .text "second"⟩, .ok Garbled.one] ∧
      Splits Garbled.bytes (fs ++ left) rest := by
  have hread : Garbled.fourth.2.2.heard Garbled.fourth.2.1.stream = Garbled.bytes := by
    decide +kernel
  have htaken : [Garbled.first.1, Garbled.second.1, Garbled.third.1,
      Garbled.fourth.1].filterMap uptake = [.ok ⟨⟨3⟩, .sender, 0, .text "first"⟩,
        .error (.protocol .unknownPrefix), .ok ⟨⟨3⟩, .sender, 0, .text "second"⟩,
        .ok Garbled.one] := by decide +kernel
  have hwithin : Within FrameBuffer.defaultLimit
      (Garbled.fourth.2.2.heard Garbled.fourth.2.1.stream) :=
    within_of_length (by decide +kernel)
  obtain ⟨noted, fs, left, rest, hturn, -, hsplits, -⟩ :=
    notes_and_frames_in_turn Garbled.dialogue hwithin
  rw [htaken] at hturn
  rw [hread] at hsplits
  exact ⟨noted, fs, left, rest, hturn, hsplits⟩

end Client

end Supervisor.Bus
