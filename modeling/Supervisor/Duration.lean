/-!
# Durations and points in time

A duration is a count of nanoseconds.  A point in time is what the message bus carries: the
milliseconds since the unix epoch, as a 64-bit word.  `WallTime` is the finer clock reading such
a stamp is taken from; it may lie before the epoch.
-/

namespace Supervisor

/-- A span of time, in nanoseconds. -/
structure Duration where
  nanos : Nat
deriving DecidableEq, Repr, Inhabited

namespace Duration

def zero : Duration := ⟨0⟩

def ofSeconds (s : Nat) : Duration := ⟨s * 1000000000⟩

def ofMillis (ms : Nat) : Duration := ⟨ms * 1000000⟩

/-- Whole milliseconds, the rest cut off. -/
def toMillis (d : Duration) : Nat := d.nanos / 1000000

/-- Whole seconds, the rest cut off. -/
def toSeconds (d : Duration) : Nat := d.nanos / 1000000000

instance : LT Duration := ⟨fun a b => a.nanos < b.nanos⟩
instance : LE Duration := ⟨fun a b => a.nanos ≤ b.nanos⟩
instance (a b : Duration) : Decidable (a < b) := inferInstanceAs (Decidable (a.nanos < b.nanos))
instance (a b : Duration) : Decidable (a ≤ b) := inferInstanceAs (Decidable (a.nanos ≤ b.nanos))

instance : Add Duration := ⟨fun a b => ⟨a.nanos + b.nanos⟩⟩

/-- The difference of two durations, zero if the second is longer. -/
instance : Sub Duration := ⟨fun a b => ⟨a.nanos - b.nanos⟩⟩

/-- The duration in seconds as a double: the whole seconds and the fraction are rounded apart and
then added, so that up to two roundings are visible in the result. -/
def seconds (d : Duration) : Float :=
  d.toSeconds.toUInt64.toFloat + (d.nanos % 1000000000).toUInt64.toFloat / 1000000000.0

@[simp] theorem toMillis_ofMillis (ms : Nat) : (ofMillis ms).toMillis = ms := by
  simp [ofMillis, toMillis]

end Duration

/-- Milliseconds since the unix epoch. -/
abbrev Millis := UInt64

/-- Time from `past` to `now`, zero if `past` lies in the future. -/
def Millis.since (now past : Millis) : Duration :=
  Duration.ofMillis (now.toNat - past.toNat)

/-- A reading of the wall clock: whole seconds from the epoch, rounded down, and the nanoseconds
on top of them. -/
structure WallTime where
  seconds : Int64
  nanos : Nat
deriving DecidableEq, Repr

namespace WallTime

/-- The time `seconds` and `nanos` after the epoch, unless the whole seconds leave their range. -/
def ofEpoch? (seconds : Int64) (nanos : Nat) : Option WallTime :=
  let whole := seconds.toInt + (nanos / 1000000000 : Nat)
  if whole ≤ Int64.maxValue.toInt then
    some ⟨Int64.ofInt whole, nanos % 1000000000⟩
  else
    none

/-- Milliseconds since the epoch: `0` for times before it, and modulo `2^64` for times that are
too far ahead. -/
def millis (t : WallTime) : Millis :=
  if t.seconds < 0 then 0
  else (t.seconds.toInt.toNat * 1000 + t.nanos / 1000000).toUInt64

end WallTime

end Supervisor
