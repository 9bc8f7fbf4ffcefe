import Supervisor.Wire.Bytes

/-!
# Escaping the frame terminator

A frame ends at the first zero byte, so serialized bytes that contain one are escaped: a zero
becomes backslash and `'0'`, a backslash becomes two, every other byte stays.  `escape` and
`unescape?` are inverse to each other: every byte string has one escaped form, and every escaped
form without zeros has one reading.
-/

namespace Supervisor.Wire

/-- Ends every frame. -/
def terminator : UInt8 := 0

/-- Introduces an escaped byte. -/
def backslash : UInt8 := 0x5c

/-- The digit that stands for the terminator behind a backslash. -/
def zeroDigit : UInt8 := 0x30

/-- The escaped form of one byte. -/
def escapeByte (b : UInt8) : Bytes :=
  if b = terminator then [backslash, zeroDigit]
  else if b = backslash then [backslash, backslash]
  else [b]

/-- Replaces zeros and backslashes by their escaped forms. -/
def escape (b : Bytes) : Bytes :=
  b.flatMap escapeByte

/-- Undoes `escape`; a backslash must be followed by `'0'` or a backslash. -/
def unescape? : Bytes → Option Bytes
  | [] => some []
  | b :: rest =>
    if b = backslash then
      match rest with
      | [] => none
      | c :: rest =>
        if c = zeroDigit then (unescape? rest).map (terminator :: ·)
        else if c = backslash then (unescape? rest).map (backslash :: ·)
        else none
    else (unescape? rest).map (b :: ·)

/-- An escaped byte string contains no terminator. -/
theorem terminator_notMem_escape (b : Bytes) : terminator ∉ escape b := by
  induction b with
  | nil => simp [escape]
  | cons x rest ih =>
    have hx : terminator ∉ escapeByte x := by
      unfold escapeByte
      split
      · decide
      · rename_i h
        split
        · decide
        · simpa using fun h' => h h'.symm
    intro hmem
    simp only [escape, List.flatMap_cons, List.mem_append] at hmem
    exact hmem.elim hx ih

/-- Undoing the escape gives the bytes back. -/
@[simp] theorem unescape?_escape (b : Bytes) : unescape? (escape b) = some b := by
  induction b with
  | nil => rfl
  | cons x rest ih =>
    have hcons : escape (x :: rest) = escapeByte x ++ escape rest := by
      simp [escape]
    rw [hcons]
    unfold escapeByte
    split
    · rename_i h
      simp [unescape?, ih, h]
    · split
      · rename_i h
        have hne : backslash ≠ zeroDigit := by decide
        simp [unescape?, ih, h, hne]
      · rename_i h
        rw [List.cons_append, List.nil_append, unescape?.eq_def]
        simp [ih, h]

end Supervisor.Wire
