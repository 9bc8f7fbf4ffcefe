import Supervisor.Error

/-!
# Operations a stream can be selected for

A mask over reading, writing and accepting.  Only masks without other bits exist.
-/

namespace Supervisor.Poll

/-- A set of operations. -/
structure Ops where
  read : Bool := false
  write : Bool := false
  accept : Bool := false
deriving DecidableEq, Repr, Inhabited

namespace Ops

def none : Ops := {}
def reading : Ops := { read := true }
def writing : Ops := { write := true }
def accepting : Ops := { accept := true }

/-- The mask: bit 0 is reading, bit 1 writing, bit 2 accepting. -/
def bits (o : Ops) : UInt8 :=
  (if o.read then 1 else 0) + (if o.write then 2 else 0) + (if o.accept then 4 else 0)

/-- The set of a mask; bits beyond the three operations are refused. -/
def ofBits (bits : UInt8) : Except Error Ops :=
  if bits < 8 then
    .ok { read := bits.toNat.testBit 0, write := bits.toNat.testBit 1, accept := bits.toNat.testBit 2 }
  else
    .error (.invalidOps bits)

def isEmpty (o : Ops) : Bool :=
  o = none

/-- All operations of either set. -/
instance : Union Ops :=
  ⟨fun a b => ⟨a.read || b.read, a.write || b.write, a.accept || b.accept⟩⟩

/-- The operations of both sets. -/
instance : Inter Ops :=
  ⟨fun a b => ⟨a.read && b.read, a.write && b.write, a.accept && b.accept⟩⟩

/-- The operations of the first set that are not in the second. -/
instance : SDiff Ops :=
  ⟨fun a b => ⟨a.read && !b.read, a.write && !b.write, a.accept && !b.accept⟩⟩

instance : HasSubset Ops :=
  ⟨fun a b => a ∩ b = a⟩

instance (a b : Ops) : Decidable (a ⊆ b) :=
  inferInstanceAs (Decidable (a ∩ b = a))

/-- The names of the operations, joined by bars. -/
def text (o : Ops) : String :=
  let names := [(o.read, "READ"), (o.write, "WRITE"), (o.accept, "ACCEPT")].filterMap
    fun (present, name) => if present then some name else Option.none
  if names.isEmpty then "NONE" else "|".intercalate names

end Ops

end Supervisor.Poll
