import Mathlib.Data.List.Basic
import Mathlib.Data.Nat.Digits.Defs
import Supervisor.Wire.Handshake

/-!
# What a handshake says, however much of it has arrived

A worker writes its id and a mark.  This module says that the reader finds the
id, whatever follows the mark (`parseHandshake_handshake`), and that a verdict
on the id is final (`parseHandshake_append`).  So as soon as a stream has a
handshake, everybody who sees more of the stream sees the same one.

`Verdict` lists all that the reader can say and when it says so; nothing else
looks into the reader.  With it `handshakes_recognized` describes the streams in
which a handshake is found, and the wait for one.
-/

namespace Supervisor.Wire

/-! ## Decimal texts -/

theorem utf8EncodeChar_of_isDigit {c : Char} (h : c.isDigit = true) :
    String.utf8EncodeChar c = [c.toNat.toUInt8] := by
  simp only [Char.isDigit, Bool.and_eq_true, decide_eq_true_eq, ge_iff_le,
    UInt32.le_iff_toNat_le] at h
  have hascii : c.val.toNat ≤ 127 := Nat.le_trans h.2 (by decide)
  simp only [String.utf8EncodeChar, if_pos hascii]
  rfl

/-- A text of digits has one byte for each of them. -/
theorem utf8_ofList {cs : List Char} (h : ∀ c ∈ cs, c.isDigit = true) :
    utf8 (String.ofList cs) = cs.map fun c => c.toNat.toUInt8 := by
  have hbytes : utf8 (String.ofList cs) = cs.flatMap String.utf8EncodeChar := by
    simp [utf8, List.utf8Encode]
  rw [hbytes]
  clear hbytes
  induction cs with
  | nil => rfl
  | cons c cs ih =>
    have htail : ∀ c ∈ cs, c.isDigit = true := fun c' hc' => h c' (List.mem_cons_of_mem c hc')
    rw [List.flatMap_cons, ih htail, utf8EncodeChar_of_isDigit (h c List.mem_cons_self)]
    rfl

theorem toNat_of_isDigit {c : Char} (h : c.isDigit = true) :
    0x30 ≤ c.toNat ∧ c.toNat ≤ 0x39 ∧ c.toNat.toUInt8.toNat = c.toNat := by
  simp only [Char.isDigit, Bool.and_eq_true, decide_eq_true_eq, ge_iff_le,
    UInt32.le_iff_toNat_le] at h
  have hlow : 0x30 ≤ c.toNat := h.1
  have hhigh : c.toNat ≤ 0x39 := h.2
  refine ⟨hlow, hhigh, ?_⟩
  simp only [Nat.toUInt8_eq, UInt8.toNat_ofNat']
  omega

theorem digitsValue_map {cs : List Char} (h : ∀ c ∈ cs, c.isDigit = true) :
    digitsValue (cs.map fun c => c.toNat.toUInt8) = Nat.ofDigitChars 10 cs 0 := by
  rw [Nat.ofDigitChars_eq_foldl, digitsValue, List.foldl_map]
  refine List.foldl_ext _ _ 0 fun n c hc => ?_
  rw [(toNat_of_isDigit (h c hc)).2.2]
  rfl

theorem utf8_toString (n : Nat) :
    utf8 (toString n) = (Nat.toDigits 10 n).map fun c => c.toNat.toUInt8 := by
  rw [Nat.toString_eq_ofList_toDigits,
    utf8_ofList fun c hc => Nat.isDigit_of_mem_toDigits (by decide) (by decide) hc]

/-- The decimal text of a number is digits, and their value is the number. -/
theorem digits_toString (n : Nat) :
    utf8 (toString n) ≠ [] ∧ (utf8 (toString n)).all isDigit = true ∧
      digitsValue (utf8 (toString n)) = n := by
  have hdigits : ∀ c ∈ Nat.toDigits 10 n, c.isDigit = true := fun c hc =>
    Nat.isDigit_of_mem_toDigits (by decide) (by decide) hc
  rw [utf8_toString, digitsValue_map hdigits, Nat.ofDigitChars_ten_toDigits]
  refine ⟨by simp [Nat.toDigits_ne_nil], ?_, rfl⟩
  rw [List.all_map, List.all_eq_true]
  intro c hc
  obtain ⟨hlow, hhigh, hbyte⟩ := toNat_of_isDigit (hdigits c hc)
  simp only [Function.comp_apply, isDigit, Bool.and_eq_true, decide_eq_true_eq,
    UInt8.le_iff_toNat_le, hbyte]
  exact ⟨hlow, hhigh⟩

/-- An id has at most twenty digits. -/
theorem length_toString_lt {n : Nat} (h : n < UInt64.size) :
    (utf8 (toString n)).length < maxHandshake := by
  have hbound : n < 10 ^ 20 := Nat.lt_trans h (by decide)
  have hlength := (Nat.length_toDigits_le_iff (by decide) (by decide)).mpr hbound
  rw [utf8_toString, List.length_map]
  exact Nat.lt_succ_of_le hlength

/-- The bytes are a decimal spelling of the number: one or more ASCII digits, of
which the first ones may be zeros. -/
structure Spells (digits : Bytes) (n : Nat) : Prop where
  nonempty : digits ≠ []
  digit : ∀ d ∈ digits, 0x30 ≤ d ∧ d ≤ 0x39
  value : Nat.ofDigits 10 (digits.map fun d => d.toNat - 0x30).reverse = n

theorem digitsValue_eq_ofDigits (digits : Bytes) :
    digitsValue digits = Nat.ofDigits 10 (digits.map fun d => d.toNat - 0x30).reverse := by
  rw [Nat.ofDigits_eq_foldr, List.foldr_reverse, List.foldl_map, digitsValue]
  congr 1
  funext n d
  exact Nat.add_comm _ _

theorem spells_iff {digits : Bytes} {n : Nat} :
    Spells digits n ↔ digits ≠ [] ∧ digits.all isDigit = true ∧ digitsValue digits = n := by
  rw [digitsValue_eq_ofDigits, List.all_eq_true]
  simp only [isDigit, Bool.and_eq_true, decide_eq_true_eq]
  exact ⟨fun h => ⟨h.nonempty, h.digit, h.value⟩, fun ⟨hne, hdigit, hvalue⟩ =>
    ⟨hne, hdigit, hvalue⟩⟩

/-! ## Verdicts -/

/-- What the reader says of some bytes, and when. -/
inductive Verdict (b : Bytes) : Except Error (Option (WorkerId × Nat)) → Prop where
  /-- Without a mark, a few digits may still become a handshake. -/
  | incomplete (hbang : bang ∉ b) (hdigits : b.all isDigit = true)
      (hlength : b.length < maxHandshake) : Verdict b (.ok none)
  | unfinished (hbang : bang ∉ b) (hbad : maxHandshake ≤ b.length ∨ b.all isDigit = false) :
      Verdict b (.error (.protocol .malformedHandshake))
  | malformed {digits rest : Bytes} (hb : b = digits ++ bang :: rest) (hbang : bang ∉ digits)
      (hbad : digits = [] ∨ digits.all isDigit = false) :
      Verdict b (.error (.protocol .malformedHandshake))
  | tooLarge {digits rest : Bytes} (hb : b = digits ++ bang :: rest) (hne : digits ≠ [])
      (hdigits : digits.all isDigit = true) (hlarge : UInt64.size ≤ digitsValue digits) :
      Verdict b (.error (.protocol .handshakeRange))
  | found {digits rest : Bytes} (hb : b = digits ++ bang :: rest) (hne : digits ≠ [])
      (hdigits : digits.all isDigit = true) (hsmall : digitsValue digits < UInt64.size) :
      Verdict b (.ok (some (⟨(digitsValue digits).toUInt64⟩, digits.length + 1)))

theorem verdict_parseHandshake (b : Bytes) : Verdict b (parseHandshake b) := by
  unfold parseHandshake
  dsimp only
  by_cases hbang : bang ∈ b
  · obtain ⟨digits, rest, hb, hbefore⟩ := List.eq_append_cons_of_mem hbang
    have hmark : digits.length ≠ b.length := by
      rw [hb, List.length_append, List.length_cons]
      omega
    rw [hb, takeWhile_ne_append_cons hbefore, ← hb, if_neg hmark]
    split
    · rename_i hbad
      exact .malformed hb hbefore (hbad.imp_right Bool.eq_false_iff.mpr)
    · rename_i hgood
      obtain ⟨hne, hdigits⟩ := not_or.mp hgood
      split
      · rename_i hlarge
        exact .tooLarge hb hne (not_not.mp hdigits) hlarge
      · rename_i hsmall
        exact .found hb hne (not_not.mp hdigits) (Nat.lt_of_not_le hsmall)
  · rw [takeWhile_ne_of_notMem hbang, if_pos rfl]
    split
    · rename_i hbad
      exact .unfinished hbang (hbad.imp_right Bool.eq_false_iff.mpr)
    · rename_i hgood
      obtain ⟨hlength, hdigits⟩ := not_or.mp hgood
      exact .incomplete hbang (not_not.mp hdigits) (Nat.lt_of_not_le hlength)

theorem bang_notMem_of_all_isDigit {digits : Bytes} (h : digits.all isDigit = true) :
    bang ∉ digits := by
  intro hmem
  have hbang := List.all_eq_true.mp h bang hmem
  revert hbang
  decide

/-- The digits of an id and a mark are a handshake. -/
theorem parseHandshake_of_digits {digits : Bytes} {uid : WorkerId} (hne : digits ≠ [])
    (hall : digits.all isDigit = true) (hvalue : digitsValue digits = uid.val.toNat)
    (rest : Bytes) :
    parseHandshake (digits ++ bang :: rest) = .ok (some (uid, digits.length + 1)) := by
  have hsmall : ¬ UInt64.size ≤ digitsValue digits := by
    rw [hvalue]
    exact Nat.not_le.mpr uid.val.toNat_lt
  have huid : (⟨(digitsValue digits).toUInt64⟩ : WorkerId) = uid := by
    rw [hvalue]
    exact Id.ext_val UInt64.ofNat_toNat
  unfold parseHandshake
  dsimp only
  rw [takeWhile_ne_append_cons (bang_notMem_of_all_isDigit hall), if_neg, if_neg, if_neg hsmall,
    huid]
  · simp [hne, hall]
  · simp

/-- A few digits may still become a handshake. -/
theorem parseHandshake_of_incomplete {b : Bytes} (hall : b.all isDigit = true)
    (hlength : b.length < maxHandshake) : parseHandshake b = .ok none := by
  unfold parseHandshake
  dsimp only
  rw [takeWhile_ne_of_notMem (bang_notMem_of_all_isDigit hall), if_pos rfl, if_neg]
  simp [hall, hlength]

/-- While a handshake is incomplete there are few bytes, and digits only. -/
theorem parseHandshake_eq_none {b : Bytes} (h : parseHandshake b = .ok none) :
    b.length < maxHandshake ∧ b.all isDigit = true := by
  have hverdict := verdict_parseHandshake b
  rw [h] at hverdict
  cases hverdict with
  | incomplete hbang hdigits hlength => exact ⟨hlength, hdigits⟩

/-- A handshake is found exactly behind the digits of an id and a mark. -/
theorem parseHandshake_eq_some_iff {b : Bytes} {uid : WorkerId} {n : Nat} :
    parseHandshake b = .ok (some (uid, n)) ↔
      ∃ digits rest, b = digits ++ bang :: rest ∧ n = digits.length + 1 ∧ digits ≠ [] ∧
        digits.all isDigit = true ∧ digitsValue digits = uid.val.toNat := by
  constructor
  · intro h
    have hverdict := verdict_parseHandshake b
    rw [h] at hverdict
    cases hverdict with
    | @found digits rest hb hne hdigits hsmall =>
      refine ⟨digits, rest, hb, rfl, hne, hdigits, ?_⟩
      rw [Nat.toUInt64_eq, UInt64.toNat_ofNat', Nat.mod_eq_of_lt hsmall]
  · rintro ⟨digits, rest, rfl, rfl, hne, hdigits, hvalue⟩
    exact parseHandshake_of_digits hne hdigits hvalue rest

/-- The handshake of a worker is read back, whatever follows it. -/
theorem parseHandshake_handshake (uid : WorkerId) (rest : Bytes) :
    parseHandshake (handshake uid ++ rest) = .ok (some (uid, (handshake uid).length)) := by
  obtain ⟨hne, hall, hvalue⟩ := digits_toString uid.val.toNat
  rw [handshake, List.append_assoc, List.singleton_append, List.length_append,
    List.length_singleton]
  exact parseHandshake_of_digits hne hall hvalue rest

/-- A handshake that was found is found in every longer stream as well. -/
theorem parseHandshake_append {b : Bytes} {r : WorkerId × Nat}
    (h : parseHandshake b = .ok (some r)) (rest : Bytes) :
    parseHandshake (b ++ rest) = .ok (some r) := by
  obtain ⟨digits, rest', rfl, hr⟩ := parseHandshake_eq_some_iff.mp h
  refine parseHandshake_eq_some_iff.mpr ⟨digits, rest' ++ rest, ?_, hr⟩
  rw [List.append_assoc, List.cons_append]

/-- A handshake ends within the stream it was found in. -/
theorem length_le_of_parseHandshake {b : Bytes} {uid : WorkerId} {n : Nat}
    (h : parseHandshake b = .ok (some (uid, n))) : n ≤ b.length := by
  obtain ⟨digits, rest, rfl, rfl, -⟩ := parseHandshake_eq_some_iff.mp h
  rw [List.length_append, List.length_cons]
  omega

/-- The beginning of a handshake is waited for. -/
theorem parseHandshake_of_lt {uid : WorkerId} {rest p : Bytes} (hp : p <+: handshake uid ++ rest)
    (hlength : p.length < (handshake uid).length) : parseHandshake p = .ok none := by
  obtain ⟨-, hall, -⟩ := digits_toString uid.val.toNat
  have hdigits : p <+: utf8 (toString uid.val.toNat) := by
    rw [handshake, List.length_append, List.length_singleton] at hlength
    rw [handshake, List.append_assoc] at hp
    exact List.prefix_of_prefix_length_le hp (List.prefix_append _ _) (Nat.le_of_lt_succ hlength)
  refine parseHandshake_of_incomplete ?_ ?_
  · rw [List.all_eq_true] at hall ⊢
    exact fun d hd => hall d (hdigits.subset hd)
  · exact Nat.lt_of_le_of_lt hdigits.length_le (length_toString_lt uid.val.toNat_lt)

/-- A worker's handshake is waited for while it is incomplete and read as soon as
it is there, whatever follows it.  In any bytes a handshake is found exactly if
they begin with one or more ASCII digits that spell an id, zeros in front
included, and the first mark is right behind them. -/
theorem handshakes_recognized :
    (∀ (uid : WorkerId) (rest p : Bytes), p <+: handshake uid ++ rest →
      parseHandshake p = if p.length < (handshake uid).length then .ok none
        else .ok (some (uid, (handshake uid).length))) ∧
      ∀ (src : Bytes) (uid : WorkerId) (n : Nat),
        parseHandshake src = .ok (some (uid, n)) ↔
          ∃ digits rest, src = digits ++ bang :: rest ∧ bang ∉ digits ∧
            n = digits.length + 1 ∧ Spells digits uid.val.toNat := by
  refine ⟨fun uid rest p hp => ?_, fun src uid n => ?_⟩
  · split
    · rename_i hshort
      exact parseHandshake_of_lt hp hshort
    · rename_i hlong
      have hwhole : handshake uid <+: p :=
        List.prefix_of_prefix_length_le (List.prefix_append _ _) hp (Nat.le_of_not_lt hlong)
      obtain ⟨more, rfl⟩ := hwhole
      exact parseHandshake_handshake uid more
  · rw [parseHandshake_eq_some_iff]
    constructor
    · rintro ⟨digits, rest, hsrc, hn, hspells⟩
      exact ⟨digits, rest, hsrc, bang_notMem_of_all_isDigit hspells.2.1, hn, spells_iff.mpr hspells⟩
    · rintro ⟨digits, rest, hsrc, -, hn, hspells⟩
      exact ⟨digits, rest, hsrc, hn, spells_iff.mp hspells⟩

/-- The handshake of worker 4711 cut within its digits and behind the first byte
of a frame, and a spelling of its id that no worker writes. -/
theorem handshakes_recognized_cut :
    let uid : WorkerId := ⟨4711⟩
    let rest : Bytes := [0x40, 0]
    let part : Bytes := [0x34, 0x37]
    let whole : Bytes := [0x34, 0x37, 0x31, 0x31, 0x21, 0x40]
    let zeros : Bytes := [0x30, 0x30, 0x34, 0x37, 0x31, 0x31, 0x21, 0x21]
    part <+: handshake uid ++ rest ∧ whole <+: handshake uid ++ rest ∧
      parseHandshake part = .ok none ∧ parseHandshake whole = .ok (some (uid, 5)) ∧
      parseHandshake zeros = .ok (some (uid, 7)) := by
  intro uid rest part whole zeros
  have hhandshake : handshake uid = [0x34, 0x37, 0x31, 0x31, 0x21] := by decide +kernel
  have hpart : part <+: handshake uid ++ rest := hhandshake ▸ ⟨[0x31, 0x31, 0x21, 0x40, 0], rfl⟩
  have hwhole : whole <+: handshake uid ++ rest := hhandshake ▸ ⟨[0], rfl⟩
  have hspells : Spells [0x30, 0x30, 0x34, 0x37, 0x31, 0x31] 4711 :=
    spells_iff.mpr ⟨by decide, by decide, by decide⟩
  obtain ⟨hread, hfound⟩ := handshakes_recognized
  refine ⟨hpart, hwhole, ?_, ?_, (hfound zeros uid 7).mpr ⟨_, _, rfl, by decide, rfl, hspells⟩⟩
  · rw [hread uid rest part hpart, hhandshake]
    rfl
  · rw [hread uid rest whole hwhole, hhandshake]
    rfl

end Supervisor.Wire
