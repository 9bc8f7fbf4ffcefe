import Supervisor.Bus.Client
import Supervisor.Proofs.Bus.Phases
import Supervisor.Proofs.Wire.Following

/-!
# A worker's end of the bus, over time

What a client writes and reads is split as its connection likes it.  This module
says what comes of that in the end.

* Writing.  Whatever a client does, what its connection took and what waits to
  be written to it grow together by the frames it sends (`Serves`,
  `Utters`).
* Reading.  If all that the connection delivers is the beginning of some frames,
  the client hands out what these frames hold, one after another (`Abreast`).
* Sessions.  A `Session` is any sequence of calls of a client, with changes of
  the outside world in between, together with what was sent and received so far.
  `Session.linked` and `Session.heeds` are the two facts above for a session.
-/

namespace Supervisor.Bus

open Poll (Host Stream Traced)
open Wire (Bytes FrameBuffer ReadEvent frame pack unpack handshake)

namespace Client

variable {σ : Type} {host : Host σ} {c c' c'' : Client} {s s' s'' : Traced σ}

/-! ## Writing -/

/-- What the connection took, and what waits to be written to it. -/
def account (c : Client) (s : Traced σ) : Bytes :=
  s.took c.stream ++ c.outbound

/-- The client reads and writes, but sends nothing. -/
structure Serves (c : Client) (s : Traced σ) (c' : Client) (s' : Traced σ) : Prop where
  uid : c'.uid = c.uid
  stream : c'.stream = c.stream
  ownMail : c'.ownMail = c.ownMail
  closed : c.closed = true → c'.closed = true
  account : c'.account s' = c.account s
  heard : s.heard c.stream <+: s'.heard c.stream

theorem Serves.refl (c : Client) (s : Traced σ) : Serves c s c s :=
  ⟨rfl, rfl, rfl, id, rfl, List.prefix_refl _⟩

theorem Serves.trans (h : Serves c s c' s') (h' : Serves c' s' c'' s'') : Serves c s c'' s'' where
  uid := h'.uid.trans h.uid
  stream := h'.stream.trans h.stream
  ownMail := h'.ownMail.trans h.ownMail
  closed := h'.closed ∘ h.closed
  account := h'.account.trans h.account
  heard := h.heard.trans (h.stream ▸ h'.heard)

/-- The world may change as long as nothing is read or written. -/
theorem Serves.of_sameTapes (h : s.SameTapes s') (c : Client) : Serves c s c s' where
  uid := rfl
  stream := rfl
  ownMail := rfl
  closed := id
  account := congrArg (· c.stream ++ c.outbound) h.took
  heard := h.heard ▸ List.prefix_rfl

theorem account_write (host : Host σ) (c : Client) (s : Traced σ) :
    let out := c.handle.write c.outbound host.traced s
    out.2.took c.stream ++ out.1.rest = c.account s ∧ out.2.heard = s.heard := by
  intro out
  obtain ⟨hflushed, _, htape⟩ := c.handle.write_taped c.outbound host.recorded s
  have hrest := Poll.taken_append (c.handle.write_suffix c.outbound host.recorded s.1)
  rw [← hflushed] at hrest
  simp only [← hflushed] at htape
  have htook : out.2.took c.stream = _ := htape c.stream
  have hid : c.handle.id = c.stream := rfl
  rw [if_pos hid] at htook
  refine ⟨?_, c.handle.heard_write c.outbound host s⟩
  rw [htook, List.append_assoc]
  exact congrArg (s.took c.stream ++ ·) hrest

/-- The client writes, and reads nothing. -/
structure Writes (c : Client) (s : Traced σ) (c' : Client) (s' : Traced σ) : Prop where
  serves : Serves c s c' s'
  reader : c'.reader = c.reader
  heard : s'.heard = s.heard

theorem Writes.refl (c : Client) (s : Traced σ) : Writes c s c s :=
  ⟨.refl c s, rfl, rfl⟩

theorem Writes.trans (h : Writes c s c' s') (h' : Writes c' s' c'' s'') : Writes c s c'' s'' where
  serves := h.serves.trans h'.serves
  reader := h'.reader.trans h.reader
  heard := h'.heard.trans h.heard

theorem Writes.of_sameTapes (h : s.SameTapes s') (c : Client) : Writes c s c s' :=
  ⟨.of_sameTapes h c, rfl, h.heard⟩

/-- Writing moves bytes inside of the account. -/
theorem writes_flush (host : Host σ) (c : Client) (s : Traced σ) :
    Writes c s (c.flush host.traced s).2.1 (c.flush host.traced s).2.2 := by
  obtain ⟨haccount, hheard⟩ := account_write host c s
  unfold flush
  generalize c.handle.write c.outbound host.traced s = out at hheard haccount
  obtain ⟨flushed, s'⟩ := out
  have hprefix : s.heard c.stream <+: s'.heard c.stream := hheard ▸ List.prefix_rfl
  dsimp only
  split
  · exact ⟨⟨rfl, rfl, rfl, id, haccount, hprefix⟩, rfl, hheard⟩
  · split
    · exact ⟨⟨rfl, rfl, rfl, fun _ => rfl, haccount, hprefix⟩, rfl, hheard⟩
    · exact ⟨⟨rfl, rfl, rfl, fun _ => rfl, haccount, hprefix⟩, rfl, hheard⟩
    · exact ⟨⟨rfl, rfl, rfl, fun _ => rfl, haccount, hprefix⟩, rfl, hheard⟩
    · exact ⟨⟨rfl, rfl, rfl, id, haccount, hprefix⟩, rfl, hheard⟩

theorem sameTapes_wait (host : Host σ) (c : Client) (timeout : Duration) (s : Traced σ) :
    s.SameTapes (c.wait host.traced timeout s).2 :=
  ⟨rfl, rfl⟩

theorem writes_flushUntil (host : Host σ) (timeout deadline : Duration) (rounds : Nat)
    (c : Client) (s : Traced σ) :
    let r := flushUntil host.traced timeout deadline rounds c s
    Writes c s r.2.1 r.2.2 := by
  induction rounds generalizing c s with
  | zero => exact .refl c s
  | succ rounds ih =>
    dsimp only
    unfold flushUntil
    split
    · exact .refl c s
    · dsimp only
      split
      · exact .refl c s
      · have hwait := sameTapes_wait host c (deadline - host.traced.clock s) s
        generalize c.wait host.traced (deadline - host.traced.clock s) s = waited at hwait
        obtain ⟨result, s'⟩ := waited
        have hwaited : Writes c s c s' := .of_sameTapes hwait c
        have hround : ∀ c'' s'' outcome, c.flush host.traced s' = (outcome, c'', s'') →
            Writes c s c'' s'' := by
          intro c'' s'' outcome heq
          have hflush := writes_flush host c s'
          rw [heq] at hflush
          exact hwaited.trans hflush
        split
        · rename_i heq
          cases heq
          exact hwaited
        · rename_i heq
          cases heq
          split
          · rename_i heq
            exact hround _ _ _ heq
          · rename_i c'' s'' heq
            exact (hround _ _ _ heq).trans (ih c'' s'')

theorem writes_flushBlocking (host : Host σ) (c : Client) (timeout : Duration) (s : Traced σ) :
    let r := c.flushBlocking host.traced timeout s
    Writes c s r.2.1 r.2.2 := by
  dsimp only
  unfold flushBlocking
  have hflush := writes_flush host c s
  dsimp only
  split
  · rename_i heq
    rw [heq] at hflush
    exact hflush
  · rename_i c' s' heq
    rw [heq] at hflush
    exact hflush.trans (writes_flushUntil host timeout _ _ c' s')

/-! ## Reading -/

/-- The envelope that was received, if one was. -/
def arrived : Except Error (Option Envelope) → List Envelope
  | .ok (some e) => [e]
  | _ => []

/-- What a reader makes of the frame of an envelope. -/
def reread (e : Envelope) : Option Envelope :=
  (unpack (pack e)).toOption

/-- What a reader makes of the frames of some envelopes. -/
def readable (mail : List Envelope) : List Envelope :=
  mail.filterMap reread

theorem readable_cons (e : Envelope) (mail : List Envelope) :
    readable (e :: mail) = (reread e).toList ++ readable mail := by
  unfold readable
  rw [List.filterMap_cons]
  cases reread e with
  | none => rfl
  | some e' => rfl

theorem reread_of_addressable {e : Envelope} (h : e.message.Addressable) : reread e = some e := by
  unfold reread
  rw [(Envelope.faithful h).unpack_pack]
  rfl

theorem sender_of_reread {e e' : Envelope} (h : reread e = some e') : e'.sender = e.sender := by
  unfold reread at h
  cases hunpack : (unpack (pack e) : Except Error Envelope) with
  | error _ =>
    rw [hunpack] at h
    cases h
  | ok v =>
    rw [hunpack] at h
    cases h
    exact Envelope.sender_of_unpack_pack hunpack

/-- All that was delivered are frames of `mail`, and `got` is what they hold as
far as they were taken. -/
def Abreast (mail got : List Envelope) (c : Client) (s : Traced σ) : Prop :=
  ∃ taken rest, mail = taken ++ rest ∧ got = readable taken ∧
    s.heard c.stream = taken.flatMap frame ++ c.reader.unparsed ∧ c.reader.Follows rest

theorem Abreast.congr {mail got : List Envelope} (h : Abreast mail got c s)
    (hstream : c'.stream = c.stream) (hreader : c'.reader = c.reader)
    (hheard : s'.heard = s.heard) : Abreast mail got c' s' := by
  obtain ⟨taken, rest, hmail, hgot, hbytes, hfollows⟩ := h
  refine ⟨taken, rest, hmail, hgot, ?_, hreader ▸ hfollows⟩
  rw [hheard, hstream, hreader, hbytes]

theorem serves_nextEnvelope (c : Client) (s : Traced σ) : Serves c s c.nextEnvelope.2 s := by
  have hreader : ∃ reader, c.nextEnvelope.2 = { c with reader } := by
    unfold nextEnvelope
    split
    · exact ⟨_, rfl⟩
    · exact ⟨_, rfl⟩
    · exact ⟨_, rfl⟩
  obtain ⟨reader, hreader⟩ := hreader
  rw [hreader]
  exact ⟨rfl, rfl, rfl, id, rfl, List.prefix_rfl⟩

theorem Abreast.nextEnvelope {mail got : List Envelope} (h : Abreast mail got c s) :
    Abreast mail (got ++ arrived c.nextEnvelope.1) c.nextEnvelope.2 s := by
  obtain ⟨taken, rest, hmail, hgot, hbytes, hfollows⟩ := h
  have hnext : c.nextEnvelope = (match c.reader.nextFrame.2 with
      | .error e => .error e
      | .ok none => .ok none
      | .ok (some payload) => (unpack payload).map some,
      { c with reader := c.reader.nextFrame.1 }) := by
    unfold Client.nextEnvelope
    split
    · rename_i heq
      rw [heq]
    · rename_i heq
      rw [heq]
    · rename_i heq
      rw [heq]
  rw [hnext]
  rcases hfollows.next with ⟨hsame, hnone⟩ | ⟨v, rest', hrest, hpayload, hunparsed, hnext'⟩
  · rw [hsame]
    have hnothing : arrived (match c.reader.nextFrame.2 with
        | .error e => .error e
        | .ok none => .ok none
        | .ok (some payload) => (unpack payload).map some) = [] := by
      split
      · rfl
      · rfl
      · rename_i payload heq
        exact absurd heq (hnone payload)
    rw [hnothing, List.append_nil]
    exact ⟨taken, rest, hmail, hgot, hbytes, hfollows⟩
  · rw [hpayload]
    refine ⟨taken ++ [v], rest', ?_, ?_, ?_, hnext'⟩
    · rw [hmail, hrest, List.append_assoc]
      rfl
    · have hone : arrived ((unpack (pack v)).map some) = readable [v] := by
        rw [readable_cons, reread]
        cases (unpack (pack v) : Except Error Envelope) with
        | error e => rfl
        | ok e => rfl
      rw [hgot, hone]
      exact List.filterMap_append.symm
    · rw [hbytes, hunparsed, List.flatMap_append]
      simp

/-- The last envelope is the next one, unless there is none. -/
theorem lastEnvelope_eq (c : Client) :
    arrived c.lastEnvelope.1 = arrived c.nextEnvelope.1 ∧
      c.lastEnvelope.2 = c.nextEnvelope.2 := by
  unfold lastEnvelope
  split
  · rename_i heq
    rw [heq]
    dsimp only
    split
    · exact ⟨rfl, rfl⟩
    · exact ⟨rfl, rfl⟩
  · exact ⟨rfl, rfl⟩

/-- Reading what has arrived adds it to what is unparsed. -/
theorem serves_fill (host : Host σ) (c : Client) (s : Traced σ) :
    let r := c.fill host.traced s
    Serves c s r.1 r.2 ∧ ∃ more, r.1.reader = c.reader.feed more ∧
      r.2.heard c.stream = s.heard c.stream ++ more := by
  obtain ⟨htook, hheard⟩ := c.handle.read_traced host s
  have hself := hheard c.stream
  have hid : c.handle.id = c.stream := rfl
  rw [if_pos hid] at hself
  unfold fill
  generalize c.handle.read host.traced s = out at htook hself
  obtain ⟨events, s'⟩ := out
  have haccount : s'.took c.stream ++ c.outbound = s.took c.stream ++ c.outbound :=
    congrArg (· c.stream ++ c.outbound) htook
  have hprefix : s.heard c.stream <+: s'.heard c.stream := hself ▸ List.prefix_append _ _
  dsimp only [FrameBuffer.readFrom]
  cases ReadEvent.outcome events with
  | ok _ => exact ⟨⟨rfl, rfl, rfl, id, haccount, hprefix⟩, _, rfl, hself⟩
  | error _ => exact ⟨⟨rfl, rfl, rfl, fun _ => rfl, haccount, hprefix⟩, _, rfl, hself⟩

theorem Abreast.fill {mail got : List Envelope} (h : Abreast mail got c s)
    (hbytes : (c.fill host.traced s).2.heard c.stream <+: mail.flatMap frame) :
    Abreast mail got (c.fill host.traced s).1 (c.fill host.traced s).2 := by
  obtain ⟨taken, rest, rfl, hgot, hheard, hfollows⟩ := h
  obtain ⟨hserves, more, hreader, hmore⟩ := serves_fill host c s
  have hunparsed := hfollows.tidy.unparsed_feed more
  have hall : (c.fill host.traced s).2.heard c.stream =
      taken.flatMap frame ++ (c.reader.feed more).unparsed := by
    rw [hmore, hheard, hunparsed, List.append_assoc]
  refine ⟨taken, rest, rfl, hgot, ?_, ?_⟩
  · rw [hserves.stream, hreader, hall]
  · rw [hreader]
    refine ⟨hfollows.tidy.feed more, ?_⟩
    rw [hall, List.flatMap_append, List.prefix_append_right_inj] at hbytes
    exact hbytes

/-- The client reads and writes, and `more` is what it takes of the frames that
its connection delivers. -/
structure Listens (more : List Envelope) (c : Client) (s : Traced σ) (c' : Client)
    (s' : Traced σ) : Prop where
  serves : Serves c s c' s'
  abreast : ∀ {mail got : List Envelope}, Abreast mail got c s →
    s'.heard c.stream <+: mail.flatMap frame → Abreast mail (got ++ more) c' s'

theorem Listens.trans {more more' : List Envelope} (h : Listens more c s c' s')
    (h' : Listens more' c' s' c'' s'') : Listens (more ++ more') c s c'' s'' where
  serves := h.serves.trans h'.serves
  abreast {mail got} habreast hbytes := by
    have hstream := h.serves.stream
    have hlater : s'.heard c.stream <+: s''.heard c.stream := hstream ▸ h'.serves.heard
    rw [← List.append_assoc]
    exact h'.abreast (h.abreast habreast (hlater.trans hbytes)) (hstream ▸ hbytes)

/-- Whoever reads nothing stays abreast. -/
theorem Writes.listens (h : Writes c s c' s') : Listens [] c s c' s' where
  serves := h.serves
  abreast habreast _ := by
    rw [List.append_nil]
    exact habreast.congr h.serves.stream h.reader h.heard

theorem Listens.refl (c : Client) (s : Traced σ) : Listens [] c s c s :=
  (Writes.refl c s).listens

theorem Listens.of_sameTapes (h : s.SameTapes s') (c : Client) : Listens [] c s c s' :=
  (Writes.of_sameTapes h c).listens

theorem listens_flush (host : Host σ) (c : Client) (s : Traced σ) :
    Listens [] c s (c.flush host.traced s).2.1 (c.flush host.traced s).2.2 :=
  (writes_flush host c s).listens

theorem listens_flushBlocking (host : Host σ) (c : Client) (timeout : Duration) (s : Traced σ) :
    let r := c.flushBlocking host.traced timeout s
    Listens [] c s r.2.1 r.2.2 :=
  (writes_flushBlocking host c timeout s).listens

/-- What a client sends to itself stays with it, and once the connection has
failed nothing is sent.  All else is added to the account, as one frame. -/
theorem send_cases (host : Host σ) (c : Client) (audience : Audience) (number : UInt64)
    (message : Message) (s : Traced σ) :
    let e : Envelope := ⟨c.uid, audience, number, message⟩
    let r := c.send host.traced audience number message s
    (audience = .sender ∧ r = (.ok (), { c with ownMail := c.ownMail ++ [e] }, s)) ∨
      (audience ≠ .sender ∧ c.closed = true ∧ r = (.error .channelClosed, c, s)) ∨
      (audience ≠ .sender ∧ c.closed = false ∧
        Writes { c with outbound := c.outbound ++ frame e } s r.2.1 r.2.2) := by
  intro e r
  by_cases haudience : audience = .sender
  · exact Or.inl ⟨haudience, if_pos haudience⟩
  · right
    have hr : r = if c.closed then (.error .channelClosed, c, s)
        else flush host.traced { c with outbound := c.outbound ++ frame e } s :=
      if_neg haudience
    cases hclosed : c.closed with
    | true =>
      rw [hclosed] at hr
      exact Or.inl ⟨haudience, rfl, hr⟩
    | false =>
      rw [hclosed] at hr
      rw [hr]
      exact Or.inr ⟨haudience, rfl, writes_flush host _ s⟩

theorem listens_fill (host : Host σ) (c : Client) (s : Traced σ) :
    Listens [] c s (c.fill host.traced s).1 (c.fill host.traced s).2 where
  serves := (serves_fill host c s).1
  abreast habreast hbytes := by
    rw [List.append_nil]
    exact habreast.fill hbytes

theorem listens_lastEnvelope (c : Client) (s : Traced σ) :
    Listens (arrived c.lastEnvelope.1) c s c.lastEnvelope.2 s where
  serves := by
    rw [(lastEnvelope_eq c).2]
    exact serves_nextEnvelope c s
  abreast habreast _ := by
    rw [(lastEnvelope_eq c).1, (lastEnvelope_eq c).2]
    exact habreast.nextEnvelope

theorem listens_attend (host : Host σ) (c : Client) (r : Poll.Readiness) (s : Traced σ) :
    Listens [] c s (c.attend host.traced r s).2.1 (c.attend host.traced r s).2.2 := by
  have hwritten : Listens [] c s
      (if r.writable then c.flush host.traced s else (.ok (), c, s)).2.1
      (if r.writable then c.flush host.traced s else (.ok (), c, s)).2.2 := by
    split
    · exact listens_flush host c s
    · exact .refl c s
  unfold attend
  split
  · rename_i heq
    rw [heq] at hwritten
    exact hwritten
  · rename_i c' s' heq
    rw [heq] at hwritten
    split
    · exact hwritten.trans (listens_fill host c' s')
    · exact hwritten

/-- What is received is a note of the client to itself, or something that the
connection delivered. -/
theorem receive_cases (host : Host σ) (c : Client) (timeout : Duration) (s : Traced σ) :
    let r := c.receive host.traced timeout s
    (∃ e rest, c.ownMail = e :: rest ∧ r = (.ok (some e), { c with ownMail := rest }, s)) ∨
      Listens (arrived r.1) c s r.2.1 r.2.2 := by
  dsimp only
  cases hown : c.ownMail with
  | cons e rest =>
    left
    refine ⟨e, rest, rfl, ?_⟩
    unfold receive
    rw [hown]
  | nil =>
    right
    have hlast := listens_lastEnvelope c s
    unfold receive
    rw [hown]
    dsimp only
    split
    · rename_i c' heq
      rw [heq] at hlast
      have hwait := sameTapes_wait host c' timeout s
      generalize c'.wait host.traced timeout s = waited at hwait
      obtain ⟨result, s'⟩ := waited
      have hwaited : Listens [] c s c' s' :=
        hlast.trans (.of_sameTapes hwait c')
      cases result with
      | interrupted => exact hwaited
      | failed failure => exact hwaited
      | reported report =>
        have hattended := hwaited.trans (listens_attend host c' (report c'.stream) s')
        dsimp only
        split
        · rename_i heq
          rw [heq] at hattended
          exact hattended
        · rename_i c'' s'' heq
          rw [heq] at hattended
          exact hattended.trans (listens_lastEnvelope c'' s'')
    · rename_i heq
      rw [heq] at hlast
      exact hlast

/-! ## Taking envelopes on -/

variable {es es' : List Envelope}

/-- The client took some envelopes on, to write them in their order. -/
structure Utters (es : List Envelope) (c : Client) (s : Traced σ) (c' : Client) (s' : Traced σ) :
    Prop where
  uid : c'.uid = c.uid
  stream : c'.stream = c.stream
  closed : c.closed = true → c'.closed = true
  account : c'.account s' = c.account s ++ es.flatMap frame
  /-- Once the connection has failed it takes nothing on. -/
  silent : c.closed = true → es = []

theorem Utters.trans (h : Utters es c s c' s') (h' : Utters es' c' s' c'' s'') :
    Utters (es ++ es') c s c'' s'' where
  uid := h'.uid.trans h.uid
  stream := h'.stream.trans h.stream
  closed := h'.closed ∘ h.closed
  account := by rw [h'.account, h.account, List.append_assoc, List.flatMap_append]
  silent hclosed := by rw [h.silent hclosed, h'.silent (h.closed hclosed), List.nil_append]

theorem Utters.refl (c : Client) (s : Traced σ) : Utters [] c s c s :=
  ⟨rfl, rfl, id, (List.append_nil _).symm, fun _ => rfl⟩

theorem Serves.utters (h : Serves c s c' s') : Utters [] c s c' s' where
  uid := h.uid
  stream := h.stream
  closed := h.closed
  account := h.account.trans (List.append_nil _).symm
  silent _ := rfl

theorem utters_send (host : Host σ) (c : Client) (audience : Audience) (number : UInt64)
    (message : Message) (s : Traced σ) :
    let r := c.send host.traced audience number message s
    Utters (if audience = .sender ∨ c.closed = true then [] else
      [⟨c.uid, audience, number, message⟩]) c s r.2.1 r.2.2 := by
  intro r
  rcases send_cases host c audience number message s
    with ⟨hself, heq⟩ | ⟨_, hclosed, heq⟩ | ⟨hother, hopen, hlistens⟩
  · rw [if_pos (Or.inl hself), show r = _ from heq]
    exact ⟨rfl, rfl, id, (List.append_nil _).symm, fun _ => rfl⟩
  · rw [if_pos (Or.inr hclosed), show r = _ from heq]
    exact .refl c s
  · have hserves := hlistens.serves
    rw [if_neg (by rw [hopen]; exact fun h => h.elim hother Bool.false_ne_true)]
    refine ⟨hserves.uid, hserves.stream, hserves.closed, ?_, fun hclosed => ?_⟩
    · rw [hserves.account, List.flatMap_singleton]
      exact (List.append_assoc _ _ _).symm
    · cases hopen.symm.trans hclosed

theorem utters_receive (host : Host σ) (c : Client) (timeout : Duration) (s : Traced σ) :
    Utters [] c s (c.receive host.traced timeout s).2.1 (c.receive host.traced timeout s).2.2 := by
  rcases receive_cases host c timeout s with ⟨e, rest, _, heq⟩ | hlistens
  · rw [heq]
    exact ⟨rfl, rfl, id, (List.append_nil _).symm, fun _ => rfl⟩
  · exact hlistens.serves.utters

/-! ## Sessions -/

theorem sameTapes_dial (host : Host σ) (address : Address) (deadline : Duration) (attempts : Nat)
    (s : Traced σ) : s.SameTapes (dial host.traced address deadline attempts s).2 := by
  induction attempts generalizing s with
  | zero => exact .refl s
  | succ attempts ih =>
    unfold dial
    have hconnect : s.SameTapes (host.traced.connect address s).2 := ⟨rfl, rfl⟩
    split
    · rename_i heq
      rw [heq] at hconnect
      exact hconnect
    · rename_i s' heq
      rw [heq] at hconnect
      split
      · exact hconnect
      · have hsleep : s'.SameTapes (host.traced.sleep retryPause s') := ⟨rfl, rfl⟩
        exact (hconnect.trans hsleep).trans (ih _)

/-- A client that has just connected has said who it is, and nothing else. -/
theorem connected_of_connect {address : Address} {uid : WorkerId} {timeout : Duration}
    {world : σ} (h : connect host.traced address uid timeout (.fresh world) = (.ok c, s)) :
    c = { uid, stream := c.stream, outbound := c.outbound } ∧ c.account s = handshake uid ∧
      s.heard c.stream = [] := by
  unfold connect at h
  dsimp only at h
  have hdial := sameTapes_dial host address (host.traced.clock (.fresh world) + timeout)
    (timeout.nanos / retryPause.nanos + 2) (.fresh world)
  split at h
  · cases h
  · rename_i id s' heq
    rw [heq] at hdial
    let dialed : Client := { uid, stream := id, outbound := handshake uid }
    obtain ⟨haccount, hheard⟩ := account_write host dialed s'
    have hwrite : Stream.write { id, kind := .socket } (handshake uid) host.traced s' =
        dialed.handle.write dialed.outbound host.traced s' := rfl
    rw [hwrite] at h
    generalize dialed.handle.write dialed.outbound host.traced s' = out at h haccount hheard
    obtain ⟨flushed, s''⟩ := out
    dsimp only at h
    split at h
    · cases h
    · cases h
      refine ⟨rfl, haccount.trans ?_, ?_⟩
      · exact congrArg (· id ++ handshake uid) hdial.took
      · exact congrFun (hheard.trans hdial.heard) id

/-- What a client is called to do over time, on a host with tapes, and what it
sent and received so far.  A client begins when it has connected; in between
calls the world may change. -/
inductive Session (host : Host σ) (uid : WorkerId) :
    List Envelope → List Envelope → Client → Traced σ → Prop where
  | connect {address : Address} {timeout : Duration} {world : σ} {c : Client} {s : Traced σ} :
      Client.connect host.traced address uid timeout (.fresh world) = (.ok c, s) →
      Session host uid [] [] c s
  | send {sent received : List Envelope} {c : Client} {s : Traced σ} (audience : Audience)
      (number : UInt64) (message : Message) : Session host uid sent received c s →
      Session host uid (sent ++ [⟨uid, audience, number, message⟩]) received
        (c.send host.traced audience number message s).2.1
        (c.send host.traced audience number message s).2.2
  | receive {sent received : List Envelope} {c : Client} {s : Traced σ} (timeout : Duration) :
      Session host uid sent received c s →
      Session host uid sent (received ++ arrived (c.receive host.traced timeout s).1)
        (c.receive host.traced timeout s).2.1 (c.receive host.traced timeout s).2.2
  | flush {sent received : List Envelope} {c : Client} {s : Traced σ} :
      Session host uid sent received c s →
      Session host uid sent received (c.flush host.traced s).2.1 (c.flush host.traced s).2.2
  | flushBlocking {sent received : List Envelope} {c : Client} {s : Traced σ}
      (timeout : Duration) : Session host uid sent received c s →
      Session host uid sent received (c.flushBlocking host.traced timeout s).2.1
        (c.flushBlocking host.traced timeout s).2.2
  | outside {sent received : List Envelope} {c : Client} {s : Traced σ} (world : σ) :
      Session host uid sent received c s → Session host uid sent received c (s.swap world)

/-- The envelopes that do not stay with the client. -/
def posted (sent : List Envelope) : List Envelope :=
  sent.filter fun e => e.audience ≠ .sender

theorem posted_append (sent sent' : List Envelope) :
    posted (sent ++ sent') = posted sent ++ posted sent' :=
  List.filter_append _ _

theorem posted_singleton (e : Envelope) :
    posted [e] = if e.audience = .sender then [] else [e] := by
  unfold posted
  split
  · rename_i h
    simp [h]
  · rename_i h
    simp [h]

/-- What a client said so far: its handshake and the frames of what it sent, up
to where the connection failed. -/
structure Linked (uid : WorkerId) (sent : List Envelope) (c : Client) (s : Traced σ) : Prop where
  named : c.uid = uid
  notes : ∀ e ∈ c.ownMail, e.sender = uid
  said : ∃ passed later, posted sent = passed ++ later ∧
    c.account s = handshake uid ++ passed.flatMap frame ∧ (c.closed = false → later = [])

theorem Serves.linked {uid : WorkerId} {sent : List Envelope} (h : Serves c s c' s')
    (hlinked : Linked uid sent c s) : Linked uid sent c' s' where
  named := h.uid.trans hlinked.named
  notes := h.ownMail ▸ hlinked.notes
  said := by
    obtain ⟨passed, later, hsent, haccount, hlater⟩ := hlinked.said
    refine ⟨passed, later, hsent, h.account.trans haccount, fun hopen => hlater ?_⟩
    cases hclosed : c.closed with
    | false => rfl
    | true => exact (h.closed hclosed).symm.trans hopen

theorem Linked.send {uid : WorkerId} {sent : List Envelope} (h : Linked uid sent c s)
    (audience : Audience) (number : UInt64) (message : Message) :
    Linked uid (sent ++ [⟨uid, audience, number, message⟩])
      (c.send host.traced audience number message s).2.1
      (c.send host.traced audience number message s).2.2 := by
  obtain ⟨passed, later, hsent, haccount, hlater⟩ := h.said
  have huid := h.named
  let e : Envelope := ⟨uid, audience, number, message⟩
  rcases send_cases host c audience number message s
    with ⟨hself, heq⟩ | ⟨hother, hclosed, heq⟩ | ⟨hother, hopen, hlistens⟩
  · rw [heq]
    have hposted : posted [e] = [] := (posted_singleton e).trans (if_pos hself)
    refine ⟨huid, fun e' he' => ?_, passed, later, ?_, haccount, hlater⟩
    · rcases List.mem_append.mp he' with he' | he'
      · exact h.notes e' he'
      · cases List.mem_singleton.mp he'
        exact huid
    · rw [posted_append, hposted, List.append_nil, hsent]
  · rw [heq]
    have hposted : posted [e] = [e] := (posted_singleton e).trans (if_neg hother)
    refine ⟨huid, h.notes, passed, later ++ [e], ?_, haccount, fun hopen => ?_⟩
    · rw [posted_append, hposted, hsent, List.append_assoc]
    · rw [hclosed] at hopen
      cases hopen
  · have hposted : posted [e] = [e] := (posted_singleton e).trans (if_neg hother)
    have hgrown : account { c with outbound := c.outbound ++ frame e } s =
        handshake uid ++ (passed ++ [e]).flatMap frame := by
      have happend : account { c with outbound := c.outbound ++ frame e } s =
          c.account s ++ frame e := (List.append_assoc _ _ _).symm
      rw [happend, haccount, List.flatMap_append, List.append_assoc, List.flatMap_singleton]
    subst huid
    refine hlistens.serves.linked ⟨rfl, h.notes, passed ++ [e], [], ?_, hgrown, fun _ => rfl⟩
    rw [posted_append, hposted, hsent, hlater hopen, List.append_nil, List.append_nil]

/-- If all that was delivered are frames of `mail`, then what was received from
others is what they hold. -/
def Heeds (uid : WorkerId) (mail received : List Envelope) (c : Client) (s : Traced σ) : Prop :=
  s.heard c.stream <+: mail.flatMap frame → ∃ got, Abreast mail got c s ∧
    ∀ p : Envelope → Bool, (∀ e, p e = true → e.sender ≠ uid) → received.filter p = got.filter p

theorem Listens.heeds {uid : WorkerId} {mail received more : List Envelope}
    (h : Listens more c s c' s') (hheeds : Heeds uid mail received c s) :
    Heeds uid mail (received ++ more) c' s' := by
  intro hbytes
  rw [h.serves.stream] at hbytes
  obtain ⟨got, habreast, hgot⟩ := hheeds (h.serves.heard.trans hbytes)
  refine ⟨got ++ more, h.abreast habreast hbytes, fun p hp => ?_⟩
  rw [List.filter_append, List.filter_append, hgot p hp]

namespace Session

variable {uid : WorkerId} {sent received : List Envelope}

theorem linked (h : Session host uid sent received c s) : Linked uid sent c s := by
  induction h with
  | connect hconnect =>
    obtain ⟨hclient, haccount, _⟩ := connected_of_connect hconnect
    rw [hclient]
    refine ⟨rfl, fun _ he => (nomatch he), [], [], rfl, ?_, fun _ => rfl⟩
    rw [← hclient, haccount]
    exact (List.append_nil _).symm
  | send audience number message _ ih => exact ih.send audience number message
  | @receive _ _ c s timeout _ ih =>
    rcases receive_cases host c timeout s with ⟨e, rest, hown, heq⟩ | hlistens
    · rw [heq]
      refine ⟨ih.named, fun e' he' => ih.notes e' ?_, ih.said⟩
      rw [hown]
      exact List.mem_cons_of_mem e he'
    · exact hlistens.serves.linked ih
  | @flush _ _ c s _ ih => exact (listens_flush host c s).serves.linked ih
  | @flushBlocking _ _ c s timeout _ ih =>
    exact (listens_flushBlocking host c timeout s).serves.linked ih
  | @outside _ _ c s world _ ih =>
    have hsame : s.SameTapes (s.swap world) := ⟨rfl, rfl⟩
    exact (Serves.of_sameTapes hsame c).linked ih

/-- Whatever a client received from others was read off the frames that its
connection delivered. -/
theorem heeds (h : Session host uid sent received c s) (mail : List Envelope) :
    Heeds uid mail received c s := by
  induction h with
  | connect hconnect =>
    obtain ⟨hclient, _, hheard⟩ := connected_of_connect hconnect
    intro _
    refine ⟨[], ⟨[], mail, rfl, rfl, ?_, ?_⟩, fun _ _ => rfl⟩
    · rw [hheard, hclient]
      rfl
    · rw [hclient]
      exact FrameBuffer.follows_empty _ mail
  | @send _ received c s audience number message hsession ih =>
    rcases send_cases host c audience number message s with ⟨_, heq⟩ | ⟨_, _, heq⟩ | ⟨_, _, h⟩
    · rw [heq]
      exact ih
    · rw [heq]
      exact ih
    · have hheeds := h.listens.heeds ih
      rwa [List.append_nil] at hheeds
  | @receive _ received c s timeout hsession ih =>
    rcases receive_cases host c timeout s with ⟨e, rest, hown, heq⟩ | hlistens
    · rw [heq]
      intro hbytes
      obtain ⟨got, habreast, hgot⟩ := ih hbytes
      refine ⟨got, habreast, fun p hp => ?_⟩
      have hnote : e.sender = uid := hsession.linked.notes e (hown ▸ List.mem_cons_self)
      have hskip : p e = false := Bool.eq_false_iff.mpr fun h => hp e h hnote
      rw [List.filter_append, hgot p hp]
      simp [arrived, hskip]
    · exact hlistens.heeds ih
  | @flush _ received c s _ ih =>
    have hheeds := (listens_flush host c s).heeds ih
    rwa [List.append_nil] at hheeds
  | @flushBlocking _ received c s timeout _ ih =>
    have hheeds := (listens_flushBlocking host c timeout s).heeds ih
    rwa [List.append_nil] at hheeds
  | outside world _ ih => exact ih

end Session

end Client

/-- A rehearsal in which whoever connects gets stream 7. -/
def dialing : Host (Nat × Poll.Script) :=
  { Broker.rehearsal with connect := fun _ s => (.ok ⟨7⟩, s) }

end Supervisor.Bus
