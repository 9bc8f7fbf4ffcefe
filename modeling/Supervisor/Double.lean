/-!
# Double-precision numbers as data

Rates travel as the 64 bits of an IEEE double.  The bits are what is stored, sent and compared
for identity; the numeric reading is taken only where a rate is computed.
-/

namespace Supervisor

/-- A double, kept as its IEEE bits. -/
structure Double where
  bits : UInt64
deriving DecidableEq, Repr, Inhabited

namespace Double

def zero : Double := ⟨0⟩

/-- The double nearest to `x`, which is `x` itself. -/
def ofFloat (x : Float) : Double := ⟨x.toBits⟩

/-- Whether the bits stand for no number: all exponent bits set and a fraction that is not zero. -/
def isNaN (x : Double) : Bool :=
  (x.bits.toNat >>> 52) % 2048 == 2047 && x.bits.toNat % (1 <<< 52) != 0

/-- Whether the bits stand for zero, of either sign. -/
def isZero (x : Double) : Bool :=
  x.bits.toNat % (1 <<< 63) == 0

/-- Numeric equality: nothing equals a value that is no number, and the two zeros are equal. -/
def equals (x y : Double) : Bool :=
  !x.isNaN && !y.isNaN && (x == y || x.isZero && y.isZero)

end Double

end Supervisor
