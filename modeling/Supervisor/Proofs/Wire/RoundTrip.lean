import Supervisor.Proofs.Wire.Serialized
import Supervisor.Wire.Payload

/-!
# Packing is undone by unpacking

`pack` picks one of three forms by looking at the content, and `unpack` reads
all three.  This module proves that the choice never matters: a payload holds
no terminator, whichever form it took, and the value comes back as it was.

* `terminator_notMem_pack` holds for every packable value, since the raw and
  the serialized form are taken only without a terminator and the escaped one
  cannot contain any.
* `Faithful` is what a value owes to its packing: its serialized form is read
  back, and so is the text that stands for it.  `Faithful.unpack_pack` is the
  case analysis over the three forms.
* Messages and envelopes are faithful as soon as a 64-bit length can count
  their texts and byte lists.  A payload is longer than what it carries, so a
  short payload is enough for that.
-/

namespace Supervisor.Wire

variable {α : Type} [Packable α]

/-! ## No terminator inside -/

theorem terminator_notMem_packBytes (b : Bytes) : terminator ∉ packBytes b := by
  unfold packBytes
  split
  · rw [List.mem_cons]
    rintro (h | h)
    · exact absurd h (by decide)
    · exact terminator_notMem_escape b h
  · rename_i hb
    rw [List.mem_cons]
    rintro (h | h)
    · exact absurd h (by decide)
    · exact hb h

/-- A payload holds no terminator. -/
theorem terminator_notMem_pack (v : α) : terminator ∉ pack v := by
  unfold pack
  split
  · rename_i s _
    split
    · exact terminator_notMem_packBytes _
    · rename_i hs
      rw [List.mem_cons]
      rintro (h | h)
      · exact absurd h (by decide)
      · exact hs h
  · exact terminator_notMem_packBytes _

/-! ## Three forms, one prefix each -/

theorem packBytes_marked (b : Bytes) :
    ∃ mark ∈ [Payload.raw, Payload.serialized, Payload.escaped], ∃ content,
      packBytes b = mark :: content := by
  unfold packBytes
  split
  · exact ⟨Payload.escaped, by decide, _, rfl⟩
  · exact ⟨Payload.serialized, by decide, _, rfl⟩

/-- A payload starts with one of the three prefixes. -/
theorem pack_marked (v : α) :
    ∃ mark ∈ [Payload.raw, Payload.serialized, Payload.escaped], ∃ content,
      pack v = mark :: content := by
  unfold pack
  split
  · split
    · exact packBytes_marked _
    · exact ⟨Payload.raw, by decide, _, rfl⟩
  · exact packBytes_marked _

/-! ## No shorter than the content -/

theorem length_le_length_escape (b : Bytes) : b.length ≤ (escape b).length := by
  induction b with
  | nil => exact Nat.le_refl _
  | cons x rest ih =>
    have hx : 1 ≤ (escapeByte x).length := by
      unfold escapeByte
      split
      · decide
      · split
        · decide
        · exact Nat.le_refl _
    have hcons : (escape (x :: rest)).length = (escapeByte x).length + (escape rest).length := by
      simp [escape]
    rw [List.length_cons, hcons]
    omega

theorem length_le_length_packBytes (b : Bytes) : b.length ≤ (packBytes b).length := by
  unfold packBytes
  split
  · have := length_le_length_escape b
    rw [List.length_cons]
    omega
  · rw [List.length_cons]
    omega

/-! ## Unpacking -/

theorem unpack_raw (s : String) {v : α} (h : Packable.ofText? s = some v) :
    unpack (Payload.raw :: utf8 s) = .ok v := by
  rw [unpack, if_pos rfl, text?_utf8]
  simp only [h]

theorem unpackBytes_of_reads {b : Bytes} {v : α} (h : Reads Packable.read b v) :
    unpackBytes b = .ok v := by
  rw [unpackBytes, h.run]

theorem unpack_packBytes_eq (b : Bytes) :
    (unpack (packBytes b) : Except Error α) = unpackBytes b := by
  unfold packBytes
  split
  · rw [unpack, if_neg (by decide), if_neg (by decide), if_pos rfl, unescape?_escape]
  · rw [unpack, if_neg (by decide), if_pos rfl]

theorem unpack_packBytes {b : Bytes} {v : α} (h : Reads Packable.read b v) :
    unpack (packBytes b) = .ok v :=
  (unpack_packBytes_eq b).trans (unpackBytes_of_reads h)

/-- What a value owes to its packing: its serialized form is read back, and
the text that stands for it, if there is one, stands for nothing else. -/
structure Faithful (v : α) : Prop where
  reads : Reads Packable.read (Packable.write v) v
  ofText : ∀ s, Packable.asText v = some s → Packable.ofText? s = some v

/-- Unpacking undoes packing, whichever form the payload took. -/
theorem Faithful.unpack_pack {v : α} (h : Faithful v) : unpack (pack v) = .ok v := by
  unfold pack
  split
  · rename_i s hs
    split
    · exact unpack_packBytes h.reads
    · exact unpack_raw s (h.ofText s hs)
  · exact unpack_packBytes h.reads

end Supervisor.Wire

namespace Supervisor

open Wire

theorem Message.faithful {m : Message} (h : m.Addressable) : Faithful m where
  reads := Message.reads_write h
  ofText s hs := by
    cases m with
    | text t =>
      cases hs
      rfl
    | _ => cases hs

theorem Envelope.faithful {e : Envelope} (h : e.message.Addressable) : Faithful e where
  reads := Envelope.reads_write h
  ofText _ hs := by cases hs

theorem Envelope.sender_of_unpack_pack {e e' : Envelope} (h : unpack (pack e) = .ok e') :
    e'.sender = e.sender := by
  have hread : unpackBytes e.write = .ok e' := (unpack_packBytes_eq e.write).symm.trans h
  unfold unpackBytes at hread
  split at hread
  · rename_i v hrun
    cases hread
    cases hall : Envelope.read e.write with
    | error fault =>
      have herror : Envelope.read.run e.write = .error fault := congrArg (Except.map Prod.fst) hall
      cases hrun.symm.trans herror
    | ok p =>
      have hok : Envelope.read.run e.write = .ok p.1 := congrArg (Except.map Prod.fst) hall
      cases hrun.symm.trans hok
      exact sender_of_read hall
  · cases hread

/-! ## Short payloads carry short texts -/

theorem Message.addressable_of_length_write {m : Message} (h : m.write.length < UInt64.size) :
    m.Addressable := by
  cases m with
  | text s =>
    show (utf8 s).length < UInt64.size
    simp only [write, writeText, writeBytes, List.length_append] at h
    omega
  | bytes b =>
    show b.length < UInt64.size
    simp only [write, writeBytes, List.length_append] at h
    omega
  | status r =>
    show (utf8 r.service).length < UInt64.size ∧ (utf8 r.description).length < UInt64.size
    simp only [write, Worker.Record.write, writeText, writeBytes, List.length_append] at h
    omega
  | command c => trivial

theorem Message.addressable_of_length_pack {m : Message} (h : (pack m).length < UInt64.size) :
    m.Addressable := by
  have hwritten : (packBytes m.write).length < UInt64.size → m.Addressable := fun hlen =>
    addressable_of_length_write (Nat.lt_of_le_of_lt (length_le_length_packBytes _) hlen)
  cases m with
  | text s =>
    by_cases hs : terminator ∈ utf8 s
    · have hpack : pack (Message.text s) = packBytes (Message.text s).write := if_pos hs
      exact hwritten (hpack ▸ h)
    · have hpack : pack (Message.text s) = Payload.raw :: utf8 s := if_neg hs
      show (utf8 s).length < UInt64.size
      rw [hpack, List.length_cons] at h
      omega
  | _ => exact hwritten h

theorem Envelope.addressable_of_length_pack {e : Envelope} (h : (pack e).length < UInt64.size) :
    e.message.Addressable := by
  have hwritten : e.write.length < UInt64.size :=
    Nat.lt_of_le_of_lt (length_le_length_packBytes e.write) h
  simp only [write, List.length_append] at hwritten
  exact Message.addressable_of_length_write (by omega)

namespace Wire

/-- Every message and every envelope becomes a payload that starts with one
of the three prefixes and holds no terminator, and the payload unpacks to
exactly the value it was made of.  Texts may hold any characters and doubles
are compared by their bits.  The one bound, for unpacking alone, is that a
64-bit length can count each text and each byte list, as it can count all that
fits into memory. -/
theorem messages_and_envelopes_unpack :
    (∀ m : Message,
      (∃ mark ∈ [Payload.raw, Payload.serialized, Payload.escaped], ∃ content,
        pack m = mark :: content) ∧
      terminator ∉ pack m ∧ (m.Addressable → unpack (pack m) = .ok m)) ∧
    (∀ e : Envelope,
      (∃ mark ∈ [Payload.raw, Payload.serialized, Payload.escaped], ∃ content,
        pack e = mark :: content) ∧
      terminator ∉ pack e ∧ (e.message.Addressable → unpack (pack e) = .ok e)) := by
  constructor
  · intro m
    exact ⟨pack_marked m, terminator_notMem_pack m, fun h => (Message.faithful h).unpack_pack⟩
  · intro e
    exact ⟨pack_marked e, terminator_notMem_pack e, fun h => (Envelope.faithful h).unpack_pack⟩

/-- A text with a terminator and a backslash in it, and the envelope of a
status whose rate is no number. -/
theorem messages_and_envelopes_unpack_hard :
    let text := Message.text "nul\x00\\"
    let report := Envelope.mk ⟨300⟩ .server 0
      (.status { service := "\\0", status := .exiting, rate := ⟨0x7ff8000000000001⟩ })
    text.Addressable ∧ report.message.Addressable ∧
      unpack (pack text) = .ok text ∧ unpack (pack report) = .ok report := by
  intro text report
  have htext : text.Addressable := by
    show (utf8 "nul\x00\\").length < UInt64.size
    decide
  have hreport : report.message.Addressable := by
    show (utf8 "\\0").length < UInt64.size ∧ (utf8 "").length < UInt64.size
    decide
  exact ⟨htext, hreport, (messages_and_envelopes_unpack.1 text).2.2 htext,
    (messages_and_envelopes_unpack.2 report).2.2 hreport⟩

end Wire

end Supervisor
