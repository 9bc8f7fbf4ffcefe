/-!
# Identifiers

Workers, selectors and streams are named by 64-bit words.  The phantom kind keeps the three
apart, so a stream id cannot be passed where a worker id is meant.  Worker `0` is the scheduler
itself; no worker process ever carries it.
-/

namespace Supervisor

/-- What an identifier names. -/
inductive IdKind where
  | worker
  | selector
  | stream
deriving DecidableEq, Repr

/-- The letters in front of a printed identifier. -/
def IdKind.letters : IdKind → String
  | .worker => "W"
  | .selector => "Sel"
  | .stream => "St"

/-- An identifier of one kind. -/
structure Id (kind : IdKind) where
  /-- The 64-bit word behind the identifier. -/
  val : UInt64
deriving DecidableEq, Repr, Hashable

namespace Id

variable {kind : IdKind}

@[ext] theorem ext_val {a b : Id kind} (h : a.val = b.val) : a = b := by
  cases a; cases b; cases h; rfl

instance : Ord (Id kind) := ⟨fun a b => compare a.val b.val⟩

instance : Inhabited (Id kind) := ⟨⟨0⟩⟩

/-- The printed form: the letters of the kind, then the word in decimal. -/
def text (id : Id kind) : String :=
  kind.letters ++ toString id.val.toNat

end Id

/-- Names a worker: the pid of a forked worker, a running number for the others. -/
abbrev WorkerId := Id .worker

/-- Names a selector observed by a reactor. -/
abbrev SelectorId := Id .selector

/-- Names a stream, unique within the process. -/
abbrev StreamId := Id .stream

/-- The id under which the scheduler takes part in the message bus. -/
def WorkerId.server : WorkerId := ⟨0⟩

/-- Whether the id is the scheduler's own. -/
def WorkerId.isServer (uid : WorkerId) : Bool :=
  uid.val == 0

end Supervisor
