/-!
# Decimal text of numbers

Reading a bounded natural number from its digits, and writing a binary floating-point value with
a fixed number of places.  Rounding is done on the exact value: `roundDiv` rounds a quotient to
the nearest integer, and an exact half goes to the even neighbour.
-/

namespace Supervisor.Decimal

/-- Whether a character is one of the ten ASCII digits. -/
def isDigit (c : Char) : Bool :=
  '0' ≤ c && c ≤ '9'

/-- The value of an ASCII digit. -/
def digitVal (c : Char) : Nat :=
  c.toNat - '0'.toNat

/-- The value of a list of digits, most significant first. -/
def value (ds : List Char) : Nat :=
  ds.foldl (fun n d => 10 * n + digitVal d) 0

/-- Reads a non-empty run of digits, leading zeros included, whose value is below `bound`. -/
def digits? (bound : Nat) (ds : List Char) : Option Nat :=
  if ds ≠ [] ∧ ds.all isDigit ∧ value ds < bound then some (value ds) else none

/-- Reads an unsigned number below `bound`; one plus sign may stand in front. -/
def unsigned? (bound : Nat) (cs : List Char) : Option Nat :=
  match cs with
  | '+' :: ds => digits? bound ds
  | ds => digits? bound ds

/-- Reads a signed number from `-bound` to `bound - 1`. -/
def signed? (bound : Nat) (cs : List Char) : Option Int :=
  match cs with
  | '-' :: ds => (digits? (bound + 1) ds).map fun n => -(n : Int)
  | '+' :: ds => (digits? bound ds).map Int.ofNat
  | ds => (digits? bound ds).map Int.ofNat

/-- The integer nearest to `num / den`; an exact half goes to the even neighbour. -/
def roundDiv (num den : Nat) : Nat :=
  let q := num / den
  let twice := 2 * (num % den)
  if twice < den then q
  else if den < twice then q + 1
  else if q % 2 = 0 then q
  else q + 1

/-- `n` with the point `places` digits from the right. -/
def withPoint (n places : Nat) : String :=
  let digits := toString (n % Nat.pow 10 places)
  toString (n / Nat.pow 10 places) ++ "."
    ++ String.ofList (List.replicate (places - digits.length) '0') ++ digits

/-- A finite, non-negative double as an exact fraction, read off its bits. -/
def fraction (x : Float) : Nat × Nat :=
  let bits := x.toBits.toNat
  let exponent := (bits >>> 52) % 2048
  let mantissa := bits % (1 <<< 52)
  let (m, e) := if exponent = 0 then (mantissa, 1) else ((1 <<< 52) + mantissa, exponent)
  if 1075 ≤ e then (m <<< (e - 1075), 1) else (m, 1 <<< (1075 - e))

/-- A finite, non-negative double written with `places` digits after the point. -/
def fixed (x : Float) (places : Nat) : String :=
  let (num, den) := fraction x
  withPoint (roundDiv (num * Nat.pow 10 places) den) places

/-- `n` in base two, with zeros in front up to `width` digits. -/
def binary (n width : Nat) : String :=
  let digits := Nat.toDigits 2 n
  String.ofList (List.replicate (width - digits.length) '0' ++ digits)

end Supervisor.Decimal
