import Supervisor.Error

/-!
# The handshake

A worker that connects to the bus first writes its id in decimal and an exclamation mark.  The
server waits for the mark while what it has can still become a handshake: digits only, and fewer
than the longest handshake has.
-/

namespace Supervisor.Wire

/-- Ends the handshake. -/
def bang : UInt8 := 0x21

/-- The longest handshake: the twenty digits of `2^64 - 1` and the mark. -/
def maxHandshake : Nat := 21

/-- Whether a byte is an ASCII digit. -/
def isDigit (b : UInt8) : Bool :=
  0x30 ≤ b && b ≤ 0x39

/-- The number written by a list of ASCII digits. -/
def digitsValue (ds : Bytes) : Nat :=
  ds.foldl (fun n d => 10 * n + (d.toNat - 0x30)) 0

/-- The handshake of a worker. -/
def handshake (uid : WorkerId) : Bytes :=
  utf8 (toString uid.val.toNat) ++ [bang]

/-- Reads a handshake from the front of a byte string: the id and the number of bytes it took, or
nothing while the handshake is incomplete. -/
def parseHandshake (b : Bytes) : Except Error (Option (WorkerId × Nat)) :=
  let digits := b.takeWhile (· ≠ bang)
  if digits.length = b.length then
    if maxHandshake ≤ b.length ∨ ¬ b.all isDigit then .error (.protocol .malformedHandshake)
    else .ok none
  else if digits = [] ∨ ¬ digits.all isDigit then .error (.protocol .malformedHandshake)
  else if UInt64.size ≤ digitsValue digits then .error (.protocol .handshakeRange)
  else .ok (some (⟨(digitsValue digits).toUInt64⟩, digits.length + 1))

end Supervisor.Wire
