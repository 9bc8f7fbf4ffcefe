import Supervisor.Wire.Bytes

/-!
# Bytes in hexadecimal

Every byte is written as two digits, the higher one first, with letters in lower case.  Reading
takes what writing produces; a digit that stands alone at the end is dropped.
-/

namespace Supervisor.Wire

/-- The digit of a number below 16. -/
def hexDigit (n : Nat) : Char :=
  Char.ofNat (if n < 10 then 48 + n else 87 + n)

/-- The value of a digit. -/
def hexValue (c : Char) : Nat :=
  if c.isDigit then c.toNat - 48 else c.toNat - 87

/-- Bytes as digits. -/
def hex (b : Bytes) : String :=
  String.ofList (b.flatMap fun x => [hexDigit (x.toNat / 16), hexDigit (x.toNat % 16)])

/-- The bytes of digits. -/
def ofDigits : List Char → Bytes
  | a :: b :: rest => (16 * hexValue a + hexValue b).toUInt8 :: ofDigits rest
  | _ => []

/-- The bytes of a text of digits. -/
def unhex (s : String) : Bytes :=
  ofDigits s.toList

theorem hexValue_hexDigit {n : Nat} (h : n < 16) : hexValue (hexDigit n) = n := by
  have all : ∀ n : Fin 16, hexValue (hexDigit n) = n := by decide
  exact all ⟨n, h⟩

@[simp] theorem unhex_hex (b : Bytes) : unhex (hex b) = b := by
  simp only [unhex, hex, String.toList_ofList]
  induction b with
  | nil => rfl
  | cons x b ih =>
    have high : x.toNat / 16 < 16 := by have := x.toNat_lt; omega
    have low : x.toNat % 16 < 16 := Nat.mod_lt _ (by decide)
    have sum : 16 * (x.toNat / 16) + x.toNat % 16 = x.toNat := Nat.div_add_mod _ _
    simp [ofDigits, hexValue_hexDigit high, hexValue_hexDigit low, sum, ih]

end Supervisor.Wire
