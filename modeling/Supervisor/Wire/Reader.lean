import Supervisor.Wire.Bytes

/-!
# Reading serialized values

A reader takes a value off the front of a byte string.  Fields follow one another without
separators, so reading a record is reading its fields in order; bytes after the value are left to
the caller.

Unsigned words are LEB128 varints: seven bits a byte, least significant group first, the top bit
set on every byte but the last.  A word of 32 bits takes at most five bytes, one of 64 bits at
most ten; longer spellings of small numbers are accepted within that length, and the last byte
possible may not carry bits beyond the word.
-/

namespace Supervisor.Wire

/-- Why serialized bytes do not hold a value. -/
inductive Fault where
  /-- The bytes end inside the value. -/
  | endOfInput
  /-- A varint runs past its longest form or does not fit its word. -/
  | badVarint
  /-- A text is not UTF-8. -/
  | badText
  /-- A number stands for none of the alternatives. -/
  | unknownVariant
deriving DecidableEq, Repr

/-- The wording of a fault. -/
def Fault.text : Fault → String
  | .endOfInput => "Hit the end of buffer, expected more data"
  | .badVarint => "Found a varint that didn't terminate. Is the usize too big for this platform?"
  | .badText => "Tried to parse invalid utf-8"
  | .unknownVariant => "Serde Deserialization Error"

/-- Takes a value off the front of a byte string. -/
abbrev Reader := StateT Bytes (Except Fault)

/-- The varint of a number. -/
def varint (n : Nat) : Bytes :=
  if n < 128 then [n.toUInt8] else (n % 128 + 128).toUInt8 :: varint (n / 128)
termination_by n
decreasing_by omega

/-- Reads a varint of at most `room` bytes; the last of them is at most `cap`. -/
def readVarint (cap : Nat) : Nat → Bytes → Except Fault (Nat × Bytes)
  | 0, _ => .error .badVarint
  | _ + 1, [] => .error .endOfInput
  | room + 1, b :: rest =>
    if b.toNat < 128 then
      if room = 0 ∧ cap < b.toNat then .error .badVarint else .ok (b.toNat, rest)
    else do
      let (high, rest) ← readVarint cap room rest
      return (b.toNat % 128 + 128 * high, rest)

namespace Reader

/-- Reads a 32-bit word. -/
def word32 : Reader UInt32 := fun b => do
  let (n, rest) ← readVarint 0x0f 5 b
  return (n.toUInt32, rest)

/-- Reads a 64-bit word. -/
def word64 : Reader UInt64 := fun b => do
  let (n, rest) ← readVarint 0x01 10 b
  return (n.toUInt64, rest)

/-- Reads a length and that many bytes. -/
def bytes : Reader Bytes := fun b => do
  let (n, rest) ← readVarint 0x01 10 b
  if rest.length < n then .error .endOfInput else .ok (rest.take n, rest.drop n)

/-- Reads a length and that many bytes of UTF-8. -/
def text : Reader String := do
  let b ← bytes
  match text? b with
  | some s => return s
  | none => throw .badText

/-- Reads eight bytes, least significant first. -/
def fixed64 : Reader UInt64 := fun b =>
  if b.length < 8 then .error .endOfInput
  else .ok (((b.take 8).foldr (fun (byte : UInt8) n => byte.toNat + 256 * n) 0).toUInt64, b.drop 8)

/-- Reads a number and picks the alternative it stands for. -/
def oneOf {α : Type} (choices : List α) : Reader α := do
  let n ← word32
  match choices[n.toNat]? with
  | some choice => return choice
  | none => throw .unknownVariant

/-- Reads a value and forgets what follows it. -/
def run {α : Type} (r : Reader α) (b : Bytes) : Except Fault α :=
  (StateT.run r b).map Prod.fst

end Reader

/-! ## Writing -/

/-- A byte string with its length in front. -/
def writeBytes (b : Bytes) : Bytes :=
  varint b.length ++ b

/-- A text as UTF-8 with its length in front. -/
def writeText (s : String) : Bytes :=
  writeBytes (utf8 s)

/-- A word as eight bytes, least significant first. -/
def writeFixed64 (w : UInt64) : Bytes :=
  (List.range 8).map fun i => (w.toNat >>> (8 * i)).toUInt8

end Supervisor.Wire
