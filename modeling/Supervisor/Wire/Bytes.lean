/-!
# Byte strings

Bytes on the wire are lists, so that frames, payloads and buffers are taken apart and joined with
the list operations.  Text crosses the wire as UTF-8.
-/

namespace Supervisor.Wire

/-- A string of bytes. -/
abbrev Bytes := List UInt8

/-- The UTF-8 form of a text. -/
def utf8 (s : String) : Bytes :=
  s.toByteArray.data.toList

/-- The text of a well-formed UTF-8 byte string. -/
def text? (b : Bytes) : Option String :=
  String.fromUTF8? ⟨b.toArray⟩

/-- Every text reads back from its UTF-8 form. -/
@[simp] theorem text?_utf8 (s : String) : text? (utf8 s) = some s := by
  have h : (⟨(utf8 s).toArray⟩ : ByteArray) = s.toByteArray := by
    simp [utf8]
  simp only [text?, h, String.fromUTF8?, s.isValidUTF8, dite_true]
  rfl

/-! ## The first occurrence of a byte -/

section

variable {x : UInt8} {b b' : Bytes}

theorem takeWhile_ne_append_cons (h : x ∉ b) (rest : Bytes) :
    (b ++ x :: rest).takeWhile (· ≠ x) = b := by
  have hall : ∀ y ∈ b, decide (y ≠ x) = true := fun y hy =>
    decide_eq_true fun hsame => h (hsame ▸ hy)
  rw [List.takeWhile_append_of_pos hall, List.takeWhile_cons_of_neg (by simp), List.append_nil]

theorem takeWhile_ne_of_notMem (h : x ∉ b) : b.takeWhile (· ≠ x) = b := by
  have hall : ∀ y ∈ b, decide (y ≠ x) = true := fun y hy =>
    decide_eq_true fun hsame => h (hsame ▸ hy)
  have hnil : (b ++ []).takeWhile (· ≠ x) = b ++ [].takeWhile (· ≠ x) :=
    List.takeWhile_append_of_pos hall
  rwa [List.append_nil, List.takeWhile_nil, List.append_nil] at hnil

/-- What is before the first `x`, and what is behind it, can be told from the
whole. -/
theorem append_cons_inj {rest rest' : Bytes} (hb : x ∉ b) (hb' : x ∉ b')
    (h : b ++ x :: rest = b' ++ x :: rest') : b = b' ∧ rest = rest' := by
  have hbefore : b = b' := by
    rw [← takeWhile_ne_append_cons hb rest, h, takeWhile_ne_append_cons hb']
  subst hbefore
  exact ⟨rfl, List.cons.inj (List.append_cancel_left h) |>.2⟩

end

end Supervisor.Wire
