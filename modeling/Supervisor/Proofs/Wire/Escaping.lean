import Mathlib.Logic.ExistsUnique
import Supervisor.Wire.Escape

/-!
# Escaped forms and their readings

A reader of an escaped form goes from left to right and takes a backslash
together with the byte behind it.  `Paired` are the byte strings that are made
of whole steps of such a scan, whatever stands behind a backslash, and a string
is `Stray` if the scan comes to a backslash that escapes nothing.

* `unescape?_eq_none_iff`: a reading fails on the stray strings and on no
  others.
* `unescape?_eq_some_iff`: without a zero byte, a string reads as some bytes
  exactly if it is their escaped form.  A zero byte is let through by the
  reader and never written, so the condition cannot be dropped.
* `escaping_bijective` puts the two together: escaping is a bijection between
  all byte strings and those with neither a zero byte nor a stray backslash.
-/

namespace Supervisor.Wire

variable {s d rest : Bytes}

/-! ## The scan -/

/-- Bytes in whole steps of a scan: a backslash is followed by some byte, which
is not looked at by itself. -/
inductive Paired : Bytes → Prop where
  | nil : Paired []
  | plain {b : UInt8} {s : Bytes} : b ≠ backslash → Paired s → Paired (b :: s)
  | pair (c : UInt8) {s : Bytes} : Paired s → Paired (backslash :: c :: s)

/-- The scan comes to a backslash with neither `'0'` nor a backslash behind it,
or with nothing at all. -/
def Stray (s : Bytes) : Prop :=
  ∃ before rest, Paired before ∧ s = before ++ backslash :: rest ∧
    ∀ c ∈ rest.head?, c ≠ zeroDigit ∧ c ≠ backslash

theorem Stray.plain {b : UInt8} (hb : b ≠ backslash) (h : Stray s) : Stray (b :: s) := by
  obtain ⟨before, rest, hbefore, rfl, hrest⟩ := h
  exact ⟨b :: before, rest, .plain hb hbefore, rfl, hrest⟩

theorem Stray.pair (c : UInt8) (h : Stray s) : Stray (backslash :: c :: s) := by
  obtain ⟨before, rest, hbefore, rfl, hrest⟩ := h
  exact ⟨backslash :: c :: before, rest, .pair c hbefore, rfl, hrest⟩

/-! ## One step of reading -/

theorem unescape?_plain {b : UInt8} (hb : b ≠ backslash) (s : Bytes) :
    unescape? (b :: s) = (unescape? s).map (b :: ·) := by
  rw [unescape?.eq_def]
  simp only [hb, if_false]

theorem unescape?_zero (s : Bytes) :
    unescape? (backslash :: zeroDigit :: s) = (unescape? s).map (terminator :: ·) := by
  simp [unescape?]

theorem unescape?_backslash (s : Bytes) :
    unescape? (backslash :: backslash :: s) = (unescape? s).map (backslash :: ·) := by
  have hne : backslash ≠ zeroDigit := by decide
  simp [unescape?, hne]

/-- A backslash in front of anything else ends the reading. -/
theorem unescape?_of_head (h : ∀ c ∈ rest.head?, c ≠ zeroDigit ∧ c ≠ backslash) :
    unescape? (backslash :: rest) = none := by
  cases rest with
  | nil => simp [unescape?]
  | cons c rest =>
    obtain ⟨hzero, hbackslash⟩ := h c rfl
    simp [unescape?, hzero, hbackslash]

/-- What stands in front of a failure cannot mend it. -/
theorem Paired.unescape?_append {before : Bytes} (h : Paired before) (hs : unescape? s = none) :
    unescape? (before ++ s) = none := by
  induction h with
  | nil => exact hs
  | plain hb _ ih => rw [List.cons_append, unescape?_plain hb, ih, Option.map_none]
  | pair c _ ih =>
    rw [List.cons_append, List.cons_append]
    by_cases hzero : c = zeroDigit
    · rw [hzero, unescape?_zero, ih, Option.map_none]
    by_cases hbackslash : c = backslash
    · rw [hbackslash, unescape?_backslash, ih, Option.map_none]
    · exact unescape?_of_head fun c' hc' => Option.some.inj hc' ▸ ⟨hzero, hbackslash⟩

/-! ## Which readings fail -/

theorem stray_of_unescape? (h : unescape? s = none) : Stray s := by
  fun_induction unescape? s with
  | case1 => cases h
  | case2 => exact ⟨[], [], .nil, rfl, nofun⟩
  | case3 rest ih => exact (ih (Option.map_eq_none_iff.mp h)).pair _
  | case4 rest _ ih => exact (ih (Option.map_eq_none_iff.mp h)).pair _
  | case5 c rest hzero hbackslash =>
    exact ⟨[], c :: rest, .nil, rfl, fun c' hc' => Option.some.inj hc' ▸ ⟨hzero, hbackslash⟩⟩
  | case6 b rest hb ih => exact (ih (Option.map_eq_none_iff.mp h)).plain hb

theorem unescape?_eq_none_iff (s : Bytes) : unescape? s = none ↔ Stray s := by
  refine ⟨stray_of_unescape?, ?_⟩
  rintro ⟨before, rest, hbefore, rfl, hrest⟩
  exact hbefore.unescape?_append (unescape?_of_head hrest)

/-! ## What a reading says of the form -/

theorem escape_cons (b : UInt8) (d : Bytes) : escape (b :: d) = escapeByte b ++ escape d :=
  List.flatMap_cons

/-- Only the escaped form of some bytes reads as these bytes, unless there are
zeros in it. -/
theorem escape_of_unescape? (hs : terminator ∉ s) (h : unescape? s = some d) : escape d = s := by
  fun_induction unescape? s generalizing d with
  | case1 =>
    cases h
    rfl
  | case2 => cases h
  | case3 rest ih =>
    obtain ⟨d, hd, rfl⟩ := Option.map_eq_some_iff.mp h
    have hrest : terminator ∉ rest := fun hmem => hs (by simp [hmem])
    rw [escape_cons, ih hrest hd]
    rfl
  | case4 rest _ ih =>
    obtain ⟨d, hd, rfl⟩ := Option.map_eq_some_iff.mp h
    have hrest : terminator ∉ rest := fun hmem => hs (by simp [hmem])
    rw [escape_cons, ih hrest hd]
    rfl
  | case5 => cases h
  | case6 b rest hb ih =>
    obtain ⟨d, hd, rfl⟩ := Option.map_eq_some_iff.mp h
    obtain ⟨hzero, hrest⟩ := List.ne_and_not_mem_of_not_mem_cons hs
    rw [escape_cons, ih hrest hd, escapeByte, if_neg (Ne.symm hzero), if_neg hb]
    rfl

theorem unescape?_eq_some_iff (hs : terminator ∉ s) : unescape? s = some d ↔ escape d = s :=
  ⟨escape_of_unescape? hs, fun h => h ▸ unescape?_escape d⟩

/-! ## The bijection -/

/-- A string without zeros reads as some bytes exactly if it is their escaped
form, and a reading fails exactly at a stray backslash.  So whatever has neither
a zero nor a stray backslash is the escaped form of exactly one byte string, and
every byte string has exactly one form without zeros that reads as it. -/
theorem escaping_bijective :
    (∀ s d, terminator ∉ s → (unescape? s = some d ↔ escape d = s)) ∧
      (∀ s, unescape? s = none ↔ Stray s) ∧
      (∀ s, terminator ∉ s → ¬ Stray s → ∃! d, escape d = s) ∧
      ∀ d, ∃! s, terminator ∉ s ∧ unescape? s = some d := by
  refine ⟨fun s d => unescape?_eq_some_iff, unescape?_eq_none_iff, fun s hs hstray => ?_,
    fun d => ?_⟩
  · rw [← unescape?_eq_none_iff] at hstray
    obtain ⟨d, hd⟩ := Option.ne_none_iff_exists'.mp hstray
    refine ⟨d, escape_of_unescape? hs hd, fun d' hd' => ?_⟩
    have hread := (unescape?_eq_some_iff hs).mpr hd'
    exact Option.some.inj (hread.symm.trans hd)
  · refine ⟨escape d, ⟨terminator_notMem_escape d, unescape?_escape d⟩, ?_⟩
    rintro s ⟨hs, hread⟩
    exact (escape_of_unescape? hs hread).symm

/-- Of three backslashes before a `'0'` the last two bytes are the escaped zero,
of four the `'0'` stands for itself, and a fifth at the end is stray. -/
theorem escaping_bijective_backslashes :
    let zero : Bytes := [backslash, backslash, backslash, zeroDigit]
    let digit : Bytes := [backslash, backslash, backslash, backslash, zeroDigit]
    (terminator ∉ zero ∧ unescape? zero = some [backslash, terminator] ∧
        escape [backslash, terminator] = zero) ∧
      (terminator ∉ digit ∧ ∃! d, escape d = digit) ∧ Stray (digit ++ [backslash]) := by
  intro zero digit
  obtain ⟨hread, hfails, hform, _⟩ := escaping_bijective
  have hzero : terminator ∉ zero := by decide
  have hdigit : terminator ∉ digit := by decide
  have hpaired : ¬ Stray digit := by
    rw [← hfails]
    decide
  refine ⟨⟨hzero, by decide, (hread _ _ hzero).mp (by decide)⟩,
    ⟨hdigit, hform _ hdigit hpaired⟩, (hfails _).mp (by decide)⟩

end Supervisor.Wire
