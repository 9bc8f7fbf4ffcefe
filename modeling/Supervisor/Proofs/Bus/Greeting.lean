import Mathlib.Data.List.Induction
import Supervisor.Proofs.Bus.Identity

/-!
# Whether the cut of a stream decides on a connection

A broker looks for the handshake after every read.  A handshake that was found
stays, but a rejection is not always final for the bytes: the reader gives up
on 21 digits without a mark, and takes any number of digits with one.  So a
spelling with zeros in front is accepted if the mark comes in the same read as
the last of these digits, and rejected otherwise.

* `parseHandshake_front`: of a handshake that is found, the bytes so far are
  digits or have all of it.
* `Overlong` is the one case in which more bytes turn a rejection around
  (`parseHandshake_append_of_error`).
* `welcome` greets a connection once for each read, and `accepts_iff` says when
  it is accepted.
* `verdict_stable_iff` puts this together: the cut has no influence unless a
  handshake of more than 21 bytes is written.
-/

namespace Supervisor.Bus

open Poll (Host)
open Wire (Bytes bang handshake isDigit maxHandshake parseHandshake Spells)

/-! ## More bytes -/

/-- A handshake is found in the bytes so far, or they are digits of it. -/
theorem parseHandshake_front {s more : Bytes} {uid : WorkerId} {n : Nat}
    (h : parseHandshake (s ++ more) = .ok (some (uid, n))) :
    (n ≤ s.length ∧ parseHandshake s = .ok (some (uid, n))) ∨
      (s.length < n ∧ s.all isDigit = true) := by
  obtain ⟨digits, rest, hsplit, rfl, hne, hall, hvalue⟩ := Wire.parseHandshake_eq_some_iff.mp h
  rcases List.append_eq_append_iff.mp hsplit with ⟨between, hdigits, hrest⟩ | ⟨between, hs, hmark⟩
  · right
    rw [hdigits, List.all_append, Bool.and_eq_true] at hall
    refine ⟨?_, hall.1⟩
    rw [hdigits, List.length_append]
    omega
  · cases between with
    | nil =>
      rw [List.append_nil] at hs
      exact Or.inr ⟨by rw [hs]; exact Nat.lt_succ_self _, hs ▸ hall⟩
    | cons mark between =>
      obtain ⟨rfl, hmore⟩ := List.cons.inj hmark
      left
      rw [hs]
      refine ⟨?_, Wire.parseHandshake_of_digits hne hall hvalue between⟩
      rw [List.length_append, List.length_cons]
      omega

/-- The bytes so far are 21 digits or more of a handshake that more bytes
complete. -/
def Overlong (s more : Bytes) : Prop :=
  maxHandshake ≤ s.length ∧ ∃ digits rest, ∃ uid : WorkerId,
    s ++ more = digits ++ bang :: rest ∧ s.length ≤ digits.length ∧ Spells digits uid.val.toNat

theorem overlong_iff {s more : Bytes} :
    Overlong s more ↔ maxHandshake ≤ s.length ∧
      ∃ uid n, parseHandshake (s ++ more) = .ok (some (uid, n)) ∧ s.length < n := by
  unfold Overlong
  refine and_congr_right fun _ => ?_
  constructor
  · rintro ⟨digits, rest, uid, hsplit, hlength, hspells⟩
    refine ⟨uid, digits.length + 1, ?_, Nat.lt_succ_of_le hlength⟩
    exact Wire.parseHandshake_eq_some_iff.mpr
      ⟨digits, rest, hsplit, rfl, Wire.spells_iff.mp hspells⟩
  · rintro ⟨uid, n, hparse, hlength⟩
    obtain ⟨digits, rest, hsplit, rfl, hspells⟩ := Wire.parseHandshake_eq_some_iff.mp hparse
    exact ⟨digits, rest, uid, hsplit, Nat.le_of_lt_succ hlength, Wire.spells_iff.mpr hspells⟩

/-- What follows leaves a rejection as it is, except after too many digits. -/
theorem parseHandshake_append_of_error {s : Bytes} {e : Error}
    (h : parseHandshake s = .error e) (more : Bytes) :
    (∃ e', parseHandshake (s ++ more) = .error e') ↔ ¬ Overlong s more := by
  have hshort : s.all isDigit = true → maxHandshake ≤ s.length := by
    intro hall
    by_contra hlength
    rw [Wire.parseHandshake_of_incomplete hall (Nat.lt_of_not_le hlength)] at h
    cases h
  rw [overlong_iff]
  constructor
  · rintro ⟨e', herror⟩ ⟨_, uid, n, hparse, _⟩
    cases hparse.symm.trans herror
  · intro hnot
    rcases hparse : parseHandshake (s ++ more) with e' | (_ | ⟨uid, n⟩)
    · exact ⟨e', rfl⟩
    · obtain ⟨hlength, hall⟩ := Wire.parseHandshake_eq_none hparse
      rw [List.length_append] at hlength
      rw [List.all_append, Bool.and_eq_true] at hall
      have hlong := hshort hall.1
      omega
    · rcases parseHandshake_front hparse with ⟨_, hfound⟩ | ⟨hlength, hall⟩
      · cases h.symm.trans hfound
      · exact absurd ⟨hshort hall, uid, n, hparse, hlength⟩ hnot

/-! ## Reads -/

theorem flatten_length_le {front reads : List Bytes} (h : front <+: reads) :
    front.flatten.length ≤ reads.flatten.length := by
  obtain ⟨later, rfl⟩ := h
  rw [List.flatten_append, List.length_append]
  exact Nat.le_add_right _ _

variable {σ : Type} {host : Host σ} {b : Broker σ} {id : StreamId}

/-- A connection that has delivered more. -/
def fed (peer : Peer) (read : Bytes) : Peer :=
  { peer with reader := peer.reader.feed read }

theorem uid_fed (peer : Peer) (read : Bytes) : (fed peer read).uid = peer.uid := rfl

/-- A new connection is greeted after each of its reads.  There is none left
once it is rejected. -/
def welcome (host : Host σ) (b : Broker σ) (id : StreamId) (reads : List Bytes) : Option Peer :=
  reads.foldlM (fun peer read => (b.greet host id (fed peer read)).1) {}

/-- The connection is accepted as the one of a worker. -/
def Accepts (host : Host σ) (b : Broker σ) (id : StreamId) (reads : List Bytes)
    (uid : WorkerId) : Prop :=
  ∃ peer, welcome host b id reads = some peer ∧ peer.uid = some uid

theorem welcome_concat (host : Host σ) (b : Broker σ) (id : StreamId) (reads : List Bytes)
    (read : Bytes) :
    welcome host b id (reads ++ [read]) =
      (welcome host b id reads).bind fun peer => (b.greet host id (fed peer read)).1 := by
  simp only [welcome, List.foldlM_append, List.foldlM_cons, List.foldlM_nil, bind_pure]
  rfl

/-- A connection that is left is introduced by all that was read. -/
theorem introduced_welcome {reads : List Bytes} {peer : Peer}
    (h : welcome host b id reads = some peer) : Introduced reads.flatten peer := by
  induction reads using List.reverseRecOn generalizing peer with
  | nil =>
    cases h
    exact introduced_new
  | append_singleton reads read ih =>
    rw [welcome_concat, Option.bind_eq_some_iff] at h
    obtain ⟨before, hbefore, hgreet⟩ := h
    rw [List.flatten_concat]
    exact (ih hbefore).greet hgreet

/-- The next read of a connection without a handshake. -/
theorem greet_stranger {bytes : Bytes} {peer : Peer} (h : Introduced bytes peer)
    (huid : peer.uid = none) (more : Bytes) (host : Host σ) (b : Broker σ) (id : StreamId) :
    (b.greet host id (fed peer more)).1 =
      match parseHandshake (bytes ++ more) with
      | .ok none => some (fed peer more)
      | .ok (some (uid, n)) =>
        if uid.isServer then none
        else some { fed peer more with uid := some uid, reader := (fed peer more).reader.consume n }
      | .error _ => none := by
  have hunparsed : (fed peer more).reader.unparsed = bytes ++ more := by
    rw [← (h.stranger huid).1]
    exact h.tidy.unparsed_feed more
  have hnone : ¬ (fed peer more).uid.isSome = true := by
    rw [uid_fed, huid]
    exact Bool.false_ne_true
  unfold Broker.greet
  rw [if_neg hnone, hunparsed]
  rcases parseHandshake (bytes ++ more) with e | (_ | ⟨uid, n⟩)
  · rfl
  · rfl
  · dsimp only
    split <;> rfl

/-- While there are a few digits only, nothing is decided. -/
theorem welcome_of_incomplete {reads : List Bytes} (hall : reads.flatten.all isDigit = true)
    (hlength : reads.flatten.length < maxHandshake) :
    ∃ peer, welcome host b id reads = some peer ∧ peer.uid = none := by
  induction reads using List.reverseRecOn with
  | nil => exact ⟨{}, rfl, rfl⟩
  | append_singleton reads read ih =>
    rw [List.flatten_concat] at hall hlength
    have hfront := hall
    rw [List.all_append, Bool.and_eq_true] at hfront
    rw [List.length_append] at hlength
    obtain ⟨peer, hpeer, huid⟩ := ih hfront.1 (by omega)
    have hgreet := greet_stranger (introduced_welcome hpeer) huid read host b id
    rw [Wire.parseHandshake_of_incomplete hall (by rw [List.length_append]; omega)] at hgreet
    refine ⟨fed peer read, ?_, huid⟩
    rw [welcome_concat, hpeer]
    exact hgreet

/-- Who is known stays. -/
theorem greet_known {peer : Peer} {uid : WorkerId} (huid : peer.uid = some uid) (more : Bytes)
    (host : Host σ) (b : Broker σ) (id : StreamId) :
    (b.greet host id (fed peer more)).1 = some (fed peer more) := by
  have hsome : (fed peer more).uid.isSome = true := by
    rw [uid_fed, huid]
    rfl
  unfold Broker.greet
  rw [if_pos hsome]

/-- Who is known before a read is known after it. -/
theorem accepts_concat_of_known {reads : List Bytes} {peer : Peer} {uid : WorkerId}
    (hpeer : welcome host b id reads = some peer) (huid : peer.uid = some uid) (read : Bytes)
    (uid' : WorkerId) : Accepts host b id (reads ++ [read]) uid' ↔ uid = uid' := by
  have hwelcome : welcome host b id (reads ++ [read]) = some (fed peer read) := by
    rw [welcome_concat, hpeer]
    exact greet_known huid read host b id
  constructor
  · rintro ⟨peer', hpeer', huid'⟩
    cases hwelcome.symm.trans hpeer'
    exact Option.some.inj (huid.symm.trans huid')
  · rintro rfl
    exact ⟨fed peer read, hwelcome, huid⟩

/-- A connection without a handshake is accepted after a read exactly if its
bytes have the handshake of a worker then. -/
theorem accepts_concat_of_stranger {reads : List Bytes} {peer : Peer}
    (hpeer : welcome host b id reads = some peer) (huid : peer.uid = none) (read : Bytes)
    (uid : WorkerId) : Accepts host b id (reads ++ [read]) uid ↔
      uid.isServer = false ∧
        ∃ n, parseHandshake (reads.flatten ++ read) = .ok (some (uid, n)) := by
  have hgreet := greet_stranger (introduced_welcome hpeer) huid read host b id
  have hwelcome : welcome host b id (reads ++ [read]) = (b.greet host id (fed peer read)).1 := by
    rw [welcome_concat, hpeer]
    rfl
  rw [← hwelcome] at hgreet
  constructor
  · rintro ⟨peer', hpeer', huid'⟩
    rw [hpeer'] at hgreet
    rcases hparse : parseHandshake (reads.flatten ++ read) with e | (_ | ⟨found, n⟩)
    · rw [hparse] at hgreet
      cases hgreet
    · rw [hparse] at hgreet
      cases hgreet
      cases huid.symm.trans huid'
    · rw [hparse] at hgreet
      dsimp only at hgreet
      split at hgreet
      · cases hgreet
      · rename_i hserver
        cases hgreet
        cases huid'
        exact ⟨Bool.eq_false_iff.mpr hserver, n, rfl⟩
  · rintro ⟨hserver, n, hparse⟩
    rw [hparse] at hgreet
    simp only [hserver, Bool.false_eq_true, if_false] at hgreet
    exact ⟨_, hgreet, rfl⟩

/-- A connection is accepted exactly if its bytes begin with the handshake of a
worker, and no read ends within this handshake but behind its first 20 bytes. -/
theorem accepts_iff (reads : List Bytes) (uid : WorkerId) :
    Accepts host b id reads uid ↔
      uid.isServer = false ∧ ∃ n, parseHandshake reads.flatten = .ok (some (uid, n)) ∧
        ∀ front, front <+: reads → front.flatten.length < n →
          front.flatten.length < maxHandshake := by
  induction reads using List.reverseRecOn generalizing uid with
  | nil =>
    constructor
    · rintro ⟨peer, hpeer, huid⟩
      cases hpeer
      cases huid
    · rintro ⟨_, n, hparse, _⟩
      cases hparse
  | append_singleton reads read ih =>
    rw [List.flatten_concat]
    constructor
    · intro haccepts
      obtain ⟨before, hbefore⟩ : ∃ before, welcome host b id reads = some before := by
        obtain ⟨peer, hpeer, _⟩ := haccepts
        rw [welcome_concat, Option.bind_eq_some_iff] at hpeer
        obtain ⟨before, hbefore, _⟩ := hpeer
        exact ⟨before, hbefore⟩
      have hintroduced := introduced_welcome hbefore
      cases hknown : before.uid with
      | some found =>
        obtain rfl := (accepts_concat_of_known hbefore hknown read uid).mp haccepts
        obtain ⟨hserver, n, hparse, hcut⟩ := (ih found).mp ⟨before, hbefore, hknown⟩
        refine ⟨hserver, n, Wire.parseHandshake_append hparse read, fun front hfront hlt => ?_⟩
        rcases List.prefix_concat_iff.mp hfront with rfl | hfront
        · have hle := Wire.length_le_of_parseHandshake hparse
          rw [List.flatten_concat, List.length_append] at hlt
          omega
        · exact hcut front hfront hlt
      | none =>
        obtain ⟨hserver, n, hparse⟩ :=
          (accepts_concat_of_stranger hbefore hknown read uid).mp haccepts
        refine ⟨hserver, n, hparse, fun front hfront hlt => ?_⟩
        rcases List.prefix_concat_iff.mp hfront with rfl | hfront
        · have hle := Wire.length_le_of_parseHandshake hparse
          rw [List.flatten_concat] at hlt
          omega
        · -- What was there before this read was too little for a verdict.
          have hfew := (Wire.parseHandshake_eq_none (hintroduced.stranger hknown).2).1
          exact Nat.lt_of_le_of_lt (flatten_length_le hfront) hfew
    · rintro ⟨hserver, n, hparse, hcut⟩
      rcases parseHandshake_front hparse with ⟨_, hfound⟩ | ⟨hlt, hall⟩
      · obtain ⟨peer, hpeer, huid⟩ := (ih uid).mpr ⟨hserver, n, hfound, fun front hfront =>
          hcut front (hfront.trans (List.prefix_append _ _))⟩
        exact (accepts_concat_of_known hpeer huid read uid).mpr rfl
      · have hfew := hcut reads (List.prefix_append _ _) hlt
        obtain ⟨peer, hpeer, huid⟩ := welcome_of_incomplete hall hfew
        exact (accepts_concat_of_stranger hpeer huid read uid).mpr ⟨hserver, n, hparse⟩

/-- A handshake of at most 21 bytes is accepted however it is cut. -/
theorem accepts_of_short {reads : List Bytes} {uid : WorkerId} {n : Nat}
    (hserver : uid.isServer = false) (hparse : parseHandshake reads.flatten = .ok (some (uid, n)))
    (hshort : n ≤ maxHandshake) : Accepts host b id reads uid :=
  (accepts_iff reads uid).mpr
    ⟨hserver, n, hparse, fun _ _ hlt => Nat.lt_of_lt_of_le hlt hshort⟩

/-- A longer handshake is accepted in one read and rejected in two. -/
theorem cut_decides (host : Host σ) (b : Broker σ) (id : StreamId) {s : Bytes} {uid : WorkerId}
    {n : Nat} (hserver : uid.isServer = false) (hparse : parseHandshake s = .ok (some (uid, n)))
    (hlong : maxHandshake < n) :
    Accepts host b id [s] uid ∧
      ∀ uid', ¬ Accepts host b id [s.take maxHandshake, s.drop maxHandshake] uid' := by
  have hlength := Wire.length_le_of_parseHandshake hparse
  constructor
  · refine (accepts_iff [s] uid).mpr ⟨hserver, n, by simpa using hparse, fun front hfront hlt => ?_⟩
    rcases List.prefix_cons_iff.mp hfront with rfl | ⟨rest, rfl, hrest⟩
    · exact Nat.zero_lt_succ _
    · rw [List.prefix_nil.mp hrest, List.flatten_singleton] at hlt
      omega
  · intro uid' haccepts
    obtain ⟨_, n', hparse', hcut⟩ := (accepts_iff _ uid').mp haccepts
    have hsame : n' = n := by
      have hwhole : [s.take maxHandshake, s.drop maxHandshake].flatten = s := by simp
      rw [hwhole, hparse] at hparse'
      cases hparse'
      rfl
    have hfirst := hcut [s.take maxHandshake] (List.prefix_append [_] [_])
    rw [List.flatten_singleton, List.length_take, hsame] at hfirst
    omega

/-- A handshake that is found is found in all longer streams.  A rejection is
final in the same way unless the bytes so far are 21 digits or more of an id
that the rest completes.  Over any reads, a connection is accepted exactly if
all of its bytes begin with the handshake of a worker and no read ends within
this handshake but behind its first 20 bytes.  So the cut of a stream has no
influence exactly if it does not begin with the handshake of a worker in more
than 21 bytes, which no worker writes itself. -/
theorem verdict_stable_iff (host : Host σ) (b : Broker σ) (id : StreamId) :
    (∀ s more r, parseHandshake s = .ok (some r) → parseHandshake (s ++ more) = .ok (some r)) ∧
      (∀ s more e, parseHandshake s = .error e →
        ((∃ e', parseHandshake (s ++ more) = .error e') ↔ ¬ Overlong s more)) ∧
      (∀ reads uid, Accepts host b id reads uid ↔
        uid.isServer = false ∧ ∃ n, parseHandshake reads.flatten = .ok (some (uid, n)) ∧
          ∀ front, front <+: reads → front.flatten.length < n →
            front.flatten.length < maxHandshake) ∧
      (∀ s, (∀ reads reads', reads.flatten = s → reads'.flatten = s →
          ∀ uid, Accepts host b id reads uid ↔ Accepts host b id reads' uid) ↔
        ¬ ∃ uid n, uid.isServer = false ∧ parseHandshake s = .ok (some (uid, n)) ∧
          maxHandshake < n) ∧
      ∀ uid rest reads, uid.isServer = false → reads.flatten = handshake uid ++ rest →
        Accepts host b id reads uid := by
  refine ⟨fun s more r h => Wire.parseHandshake_append h more,
    fun s more e h => parseHandshake_append_of_error h more, accepts_iff, fun s => ⟨?_, ?_⟩, ?_⟩
  · rintro hsame ⟨uid, n, hserver, hparse, hlong⟩
    obtain ⟨hwhole, hcut⟩ := cut_decides host b id hserver hparse hlong
    exact hcut uid ((hsame _ _ (by simp) (by simp) uid).mp hwhole)
  · -- Without a long handshake, what is accepted in some reads is so in all of them.
    intro hnone reads reads' hreads hreads' uid
    have hall : ∀ reads reads' : List Bytes, reads.flatten = s → reads'.flatten = s →
        Accepts host b id reads uid → Accepts host b id reads' uid := by
      intro reads reads' hreads hreads' haccepts
      obtain ⟨hserver, n, hparse, _⟩ := (accepts_iff reads uid).mp haccepts
      rw [hreads] at hparse
      refine accepts_of_short hserver (hreads' ▸ hparse) (Nat.le_of_not_lt fun hlong => ?_)
      exact hnone ⟨uid, n, hserver, hparse, hlong⟩
    exact ⟨hall reads reads' hreads hreads', hall reads' reads hreads' hreads⟩
  · intro uid rest reads hserver hreads
    refine accepts_of_short hserver (hreads ▸ Wire.parseHandshake_handshake uid rest) ?_
    rw [handshake, List.length_append, List.length_singleton]
    exact Wire.length_toString_lt uid.val.toNat_lt

/-- Twenty zeros and a one are rejected, and with a mark they are worker 1. -/
theorem rejected_zeros_accepted :
    let zeros : Bytes := List.replicate 20 0x30 ++ [0x31]
    parseHandshake zeros = .error (.protocol .malformedHandshake) ∧
      parseHandshake (zeros ++ [bang]) = .ok (some (⟨1⟩, 22)) := by
  decide +kernel

end Supervisor.Bus
