import Supervisor.Message

/-!
# Reading back what was written

Every writer of the wire format has a reader that takes exactly the written
bytes off the front of a byte string and yields the written value.  This
module proves that for all of them, from varints up to envelopes.

There are four groups.

* `Reads` is the property itself: whatever follows the written bytes is left
  to the next reader.  `Reads.bind` and `Reads.bind_pure` put readers in
  sequence, so a record is read back field by field.
* Words.  `readVarint_varint` is the induction over the groups of a varint;
  the 32-bit and 64-bit readers are two instances of its bound.
* Byte strings, texts, doubles and alternatives.
* Records, messages and envelopes.

A length is itself a 64-bit varint, so a text or a byte list survives only
if a 64-bit length can count it.  No text in memory is longer; `Addressable`
states it for the values that carry texts.
-/

namespace Supervisor.Wire

/-- Reader `r` takes exactly `b` off the front of what it is given and yields
`v`. -/
def Reads {α : Type} (r : Reader α) (b : Bytes) (v : α) : Prop :=
  ∀ rest, r (b ++ rest) = .ok (v, rest)

namespace Reads

variable {α β : Type} {r : Reader α} {b c : Bytes} {v : α} {w : β}

theorem pure (v : α) : Reads (Pure.pure v : Reader α) [] v := fun _ => rfl

/-- Readers in sequence read what writers wrote in sequence. -/
theorem bind {next : α → Reader β} (hr : Reads r b v) (hnext : Reads (next v) c w) :
    Reads (r >>= next) (b ++ c) w := by
  intro rest
  show (r (b ++ c ++ rest) >>= fun p => next p.1 p.2) = _
  rw [List.append_assoc, hr (c ++ rest)]
  exact hnext rest

/-- The last reader of a sequence, with what is made of the value it reads. -/
theorem bind_pure {next : α → Reader β} (hr : Reads r b v)
    (hnext : next v = Pure.pure w) : Reads (r >>= next) b w := by
  have h : Reads (next v) [] w := by
    rw [hnext]
    exact Reads.pure w
  have hbind := hr.bind h
  rwa [List.append_nil] at hbind

theorem run (h : Reads r b v) : r.run b = .ok v := by
  have hb : r b = .ok (v, []) := by simpa using h []
  show Except.map Prod.fst (r b) = _
  rw [hb]
  rfl

end Reads

/-- Readers in sequence succeed one after another. -/
theorem Reader.exists_of_bind {α β : Type} {r : Reader α} {next : α → Reader β} {b rest : Bytes}
    {w : β} (h : (r >>= next) b = .ok (w, rest)) :
    ∃ v left, r b = .ok (v, left) ∧ next v left = .ok (w, rest) := by
  have hbind : (r >>= next) b = (r b >>= fun p => next p.1 p.2) := rfl
  rw [hbind] at h
  cases hr : r b with
  | error fault =>
    rw [hr] at h
    cases h
  | ok p =>
    rw [hr] at h
    exact ⟨p.1, p.2, rfl, h⟩

/-! ## Words -/

/-- A varint is read back as long as the number fits the reader: `room` bytes
of seven bits, the last of them at most `cap`. -/
theorem readVarint_varint {cap : Nat} (hcap : cap < 128) (room : Nat) :
    ∀ (n : Nat) (rest : Bytes), n >>> (7 * room) ≤ cap →
      readVarint cap (room + 1) (varint n ++ rest) = .ok (n, rest) := by
  induction room with
  | zero =>
    intro n rest hn
    have hle : n ≤ cap := hn
    have hlt : n < 128 := by omega
    have hbyte : n.toUInt8.toNat = n := by
      simp only [Nat.toUInt8_eq, UInt8.toNat_ofNat']
      omega
    rw [varint, if_pos hlt, List.cons_append, List.nil_append, readVarint, hbyte, if_pos hlt,
      if_neg (by omega)]
  | succ room ih =>
    intro n rest hn
    rw [varint]
    split
    · rename_i hlt
      have hbyte : n.toUInt8.toNat = n := by
        simp only [Nat.toUInt8_eq, UInt8.toNat_ofNat']
        omega
      rw [List.cons_append, List.nil_append, readVarint, hbyte, if_pos hlt, if_neg (by omega)]
    · have hbyte : (n % 128 + 128).toUInt8.toNat = n % 128 + 128 := by
        simp only [Nat.toUInt8_eq, UInt8.toNat_ofNat']
        omega
      have hhigh : (n / 128) >>> (7 * room) ≤ cap := by
        have hshift : n / 128 = n >>> 7 := (Nat.shiftRight_eq_div_pow n 7).symm
        rw [hshift, ← Nat.shiftRight_add, Nat.add_comm, ← Nat.mul_succ]
        exact hn
      have hsum : (n % 128 + 128) % 128 + 128 * (n / 128) = n := by omega
      rw [List.cons_append, readVarint, hbyte, if_neg (by omega), ih _ rest hhigh]
      show Except.ok ((n % 128 + 128) % 128 + 128 * (n / 128), rest) = _
      rw [hsum]

theorem readVarint_word32 {n : Nat} (h : n < UInt32.size) (rest : Bytes) :
    readVarint 0x0f 5 (varint n ++ rest) = .ok (n, rest) := by
  have hlast : n >>> 28 ≤ 0x0f := by
    unfold UInt32.size at h
    rw [Nat.shiftRight_eq_div_pow]
    omega
  exact readVarint_varint (by decide) 4 n rest hlast

theorem readVarint_word64 {n : Nat} (h : n < UInt64.size) (rest : Bytes) :
    readVarint 0x01 10 (varint n ++ rest) = .ok (n, rest) := by
  have hlast : n >>> 63 ≤ 0x01 := by
    unfold UInt64.size at h
    rw [Nat.shiftRight_eq_div_pow]
    omega
  exact readVarint_varint (by decide) 9 n rest hlast

theorem reads_word32 (w : UInt32) : Reads Reader.word32 (varint w.toNat) w := by
  intro rest
  rw [Reader.word32, readVarint_word32 w.toNat_lt]
  show Except.ok (w.toNat.toUInt32, rest) = _
  rw [Nat.toUInt32_eq, UInt32.ofNat_toNat]

theorem reads_word64 (w : UInt64) : Reads Reader.word64 (varint w.toNat) w := by
  intro rest
  rw [Reader.word64, readVarint_word64 w.toNat_lt]
  show Except.ok (w.toNat.toUInt64, rest) = _
  rw [Nat.toUInt64_eq, UInt64.ofNat_toNat]

/-! ## Byte strings, texts, doubles and alternatives -/

theorem reads_bytes {b : Bytes} (h : b.length < UInt64.size) :
    Reads Reader.bytes (writeBytes b) b := by
  intro rest
  rw [writeBytes, List.append_assoc, Reader.bytes, readVarint_word64 h]
  show (if (b ++ rest).length < b.length then _ else _) = _
  rw [if_neg (by rw [List.length_append]; omega), List.take_left, List.drop_left]

theorem reads_text {s : String} (h : (utf8 s).length < UInt64.size) :
    Reads Reader.text (writeText s) s := by
  refine (reads_bytes h).bind_pure ?_
  rw [text?_utf8]

/-- The eight bytes of a word are the digits of its number to the base 256. -/
theorem foldr_digits (count : Nat) : ∀ n : Nat,
    ((List.range count).map fun i => (n >>> (8 * i)).toUInt8).foldr
      (fun (byte : UInt8) n => byte.toNat + 256 * n) 0 = n % (1 <<< (8 * count)) := by
  induction count with
  | zero =>
    intro n
    exact (Nat.mod_one n).symm
  | succ count ih =>
    intro n
    have hshift : ∀ i, n >>> (8 * (i + 1)) = (n / 256) >>> (8 * i) := fun i => by
      rw [Nat.mul_succ, Nat.add_comm, Nat.shiftRight_add, Nat.shiftRight_eq_div_pow n 8]
    have hbase : 1 <<< (8 * (count + 1)) = 256 * 1 <<< (8 * count) := by
      rw [Nat.mul_succ, Nat.shiftLeft_add, Nat.shiftLeft_eq, Nat.mul_comm]
    rw [List.range_succ_eq_map, List.map_cons, List.map_map, List.foldr_cons]
    simp only [Function.comp_def, Nat.succ_eq_add_one, hshift, ih (n / 256)]
    rw [Nat.mul_zero, Nat.shiftRight_zero, Nat.toUInt8_eq, UInt8.toNat_ofNat', hbase,
      Nat.mod_mul]

theorem reads_fixed64 (w : UInt64) : Reads Reader.fixed64 (writeFixed64 w) w := by
  intro rest
  have hlen : (writeFixed64 w).length = 8 := by simp [writeFixed64]
  have hval : (writeFixed64 w).foldr (fun (byte : UInt8) n => byte.toNat + 256 * n) 0
      = w.toNat := by
    rw [writeFixed64, foldr_digits]
    exact Nat.mod_eq_of_lt w.toNat_lt
  rw [Reader.fixed64, if_neg (by rw [List.length_append]; omega), List.take_left' hlen,
    List.drop_left' hlen, hval, Nat.toUInt64_eq, UInt64.ofNat_toNat]

/-- An alternative is read back from its number in the list of them all. -/
theorem reads_oneOf {α : Type} [DecidableEq α] {choices : List α} {choice : α}
    (hmem : choice ∈ choices) (hlen : choices.length ≤ UInt32.size) :
    Reads (Reader.oneOf choices) (varint (choices.idxOf choice)) choice := by
  have hidx : choices.idxOf choice < choices.length := List.idxOf_lt_length_of_mem hmem
  have hnat : (UInt32.ofNat (choices.idxOf choice)).toNat = choices.idxOf choice := by
    rw [UInt32.toNat_ofNat']
    exact Nat.mod_eq_of_lt (Nat.lt_of_lt_of_le hidx hlen)
  rw [← hnat]
  refine (reads_word32 _).bind_pure ?_
  rw [hnat, List.getElem?_eq_getElem hidx, List.getElem_idxOf hidx]

end Supervisor.Wire

namespace Supervisor

open Wire

/-! ## Records -/

namespace Worker.Record

/-- The texts of a record are no longer than a 64-bit length can count. -/
def Addressable (r : Record) : Prop :=
  (utf8 r.service).length < UInt64.size ∧ (utf8 r.description).length < UInt64.size

theorem reads_write {r : Record} (h : r.Addressable) : Reads read r.write r := by
  have hstatus : Reads (Reader.oneOf Status.all) (varint (Status.all.idxOf r.status)) r.status :=
    reads_oneOf (by cases r.status <;> decide) (by decide)
  simp only [write, List.append_assoc]
  refine (reads_word32 r.process).bind ?_
  refine (reads_word32 r.thread).bind ?_
  refine (reads_word64 r.uid.val).bind ?_
  refine (reads_text h.1).bind ?_
  refine hstatus.bind ?_
  refine (reads_word64 r.changedAt).bind ?_
  refine (reads_word64 r.createdAt).bind ?_
  refine (reads_word64 r.tasks).bind ?_
  refine (reads_fixed64 r.rate.bits).bind ?_
  refine (reads_word64 r.userTime).bind ?_
  refine (reads_word64 r.systemTime).bind ?_
  exact (reads_text h.2).bind_pure rfl

end Worker.Record

/-! ## Messages and envelopes -/

/-- The texts and byte lists of a message are no longer than a 64-bit length
can count. -/
def Message.Addressable : Message → Prop
  | .text s => (utf8 s).length < UInt64.size
  | .bytes b => b.length < UInt64.size
  | .status r => r.Addressable
  | .command _ => True

theorem Message.reads_write {m : Message} (h : m.Addressable) :
    Reads Message.read m.write m := by
  cases m with
  | text s => exact (reads_word32 0).bind ((reads_text h).bind_pure rfl)
  | bytes b => exact (reads_word32 1).bind ((reads_bytes h).bind_pure rfl)
  | status r => exact (reads_word32 2).bind ((Worker.Record.reads_write h).bind_pure rfl)
  | command c =>
    cases c
    have hstop : Reads (Reader.oneOf [Command.stop]) (varint 0) .stop :=
      reads_oneOf (List.mem_singleton_self Command.stop) (by decide)
    exact (reads_word32 3).bind (hstop.bind_pure rfl)

theorem Envelope.reads_write {e : Envelope} (h : e.message.Addressable) :
    Reads Envelope.read e.write e := by
  have haudience : Reads (Reader.oneOf Audience.every)
      (varint (Audience.every.idxOf e.audience)) e.audience :=
    reads_oneOf (by cases e.audience <;> decide) (by decide)
  simp only [write, List.append_assoc]
  refine (reads_word64 e.sender.val).bind ?_
  refine haudience.bind ?_
  refine (reads_word64 e.number).bind ?_
  exact (Message.reads_write h).bind_pure rfl

/-- However an envelope is read back, its sender survives. -/
theorem Envelope.sender_of_read {e e' : Envelope} {rest : Bytes}
    (h : Envelope.read e.write = .ok (e', rest)) : e'.sender = e.sender := by
  simp only [write, List.append_assoc] at h
  obtain ⟨sender, left, hsender, h⟩ := Reader.exists_of_bind h
  cases (reads_word64 e.sender.val _).symm.trans hsender
  obtain ⟨_, _, _, h⟩ := Reader.exists_of_bind h
  obtain ⟨_, _, _, h⟩ := Reader.exists_of_bind h
  obtain ⟨_, _, _, h⟩ := Reader.exists_of_bind h
  cases h
  rfl

end Supervisor
