import Supervisor.Poll.Ops
import Supervisor.Poll.Stream
import Supervisor.Table

/-!
# Selectors

A selector owns the streams registered with it, each with the operations it is of interest for,
and polls them.  After a poll its ready list names the streams that are ready for something they
are of interest for, in the order of their ids, and every key tells for what.

A ready listener that is of interest for accepting only ever means "accept".  Streams that were
closed while they were registered are dropped before the next poll.
-/

namespace Supervisor.Poll

variable {α σ : Type}

/-- The registration of one stream. -/
structure Key (α : Type) where
  stream : Stream
  interest : Ops
  /-- What the last poll found the stream ready for. -/
  ready : Ops := .none
  /-- Data of the stream's user. -/
  attachment : Option α := none
deriving DecidableEq, Repr

/-- Registered streams and the ready list of the last poll. -/
structure Selector (α : Type) where
  keys : Table .stream (Key α)
  ready : List StreamId
deriving DecidableEq, Repr

/-- Why a stream cannot be registered for operations. -/
def validate (st : Stream) (ops : Ops) : Except Error Unit :=
  if ops.isEmpty ∨ (ops.accept ∧ st.kind ≠ .listener) then .error (.invalidOps ops.bits)
  else .ok ()

/-- What reported readiness means for a stream and the interest in it. -/
def readyOps (kind : StreamKind) (interest : Ops) (r : Readiness) : Ops :=
  let input := r.readable || r.hangup || r.error
  if interest.accept ∧ kind = .listener then if input then .accepting else .none
  else { read := input, write := r.writable || r.error } ∩ interest

namespace Selector

/-- A selector without streams. -/
def empty : Selector α := ⟨∅, []⟩

instance : Inhabited (Selector α) := ⟨empty⟩

/-- Takes a stream over. -/
def register (sel : Selector α) (st : Stream) (ops : Ops) (attachment : Option α) :
    Except Error (Selector α) :=
  match validate st ops with
  | .error e => .error e
  | .ok () =>
    .ok { sel with keys := sel.keys.insert st.id { stream := st, interest := ops, attachment } }

/-- Adds interest in operations. -/
def reregister (sel : Selector α) (id : StreamId) (ops : Ops) : Except Error (Selector α) :=
  match sel.keys.find? id with
  | none => .error (.unknownStream id)
  | some key =>
    match validate key.stream ops with
    | .error e => .error e
    | .ok () =>
      .ok { sel with keys := sel.keys.insert id { key with interest := key.interest ∪ ops } }

/-- Drops a key, whatever its interest. -/
def remove (sel : Selector α) (id : StreamId) : Selector α :=
  { keys := sel.keys.erase id, ready := sel.ready.filter (· ≠ id) }

/-- Withdraws interest in operations.  Without any interest left the key is dropped and its stream
handed back. -/
def unregister (sel : Selector α) (id : StreamId) (ops : Ops) :
    Except Error (Selector α × Option Stream) :=
  match sel.keys.find? id with
  | none => .error (.unknownStream id)
  | some key =>
    let interest := key.interest \ ops
    if interest.isEmpty then .ok (sel.remove id, some key.stream)
    else
      .ok ({ sel with
        keys := sel.keys.insert id { key with interest, ready := key.ready ∩ interest } }, none)

/-- Changes the key of a stream, if it is registered. -/
def modify (sel : Selector α) (id : StreamId) (f : Key α → Key α) : Selector α :=
  { sel with keys := sel.keys.modify id f }

/-- Closes a registered stream; its key stays until the next poll. -/
def closeStream (sel : Selector α) (id : StreamId) : Selector α :=
  sel.modify id fun key => { key with stream := { key.stream with closed := true } }

/-- Drops a key and closes its stream, unless that is closed already. -/
def discard (sel : Selector α) (id : StreamId) (host : Host σ) (s : σ) : Selector α × σ :=
  match sel.keys.find? id with
  | none => (sel.remove id, s)
  | some key => (sel.remove id, if key.stream.closed then s else host.close id s)

/-- The keys that the last poll found ready. -/
def selectionKeys (sel : Selector α) : List (Key α) :=
  sel.ready.filterMap sel.keys.find?

/-! ## Polling -/

/-- Drops the keys of closed streams. -/
def pruneClosed (sel : Selector α) : Selector α :=
  let keys := sel.keys.filter fun _ key => !key.stream.closed
  { keys, ready := sel.ready.filter fun id => !(sel.keys.find? id).any (·.stream.closed) }

/-- What to poll: the open streams, each for the operations it is of interest for. -/
def pollEntries (sel : Selector α) : List PollEntry :=
  sel.keys.values.filterMap fun key =>
    if key.stream.closed ∨ key.interest.isEmpty then none
    else some ⟨key.stream.id, key.interest.read, key.interest.write, key.interest.accept⟩

/-- Takes over what a poll reported for the polled streams. -/
def applyReadiness (sel : Selector α) (polled : List StreamId) (report : StreamId → Readiness) :
    Selector α :=
  let keys := sel.keys.map fun id key =>
    { key with
      ready :=
        if id ∈ polled ∧ !(report id).isEmpty then
          readyOps key.stream.kind key.interest (report id)
        else .none }
  { keys, ready := polled.filter fun id => (keys.find? id).any fun key => !key.ready.isEmpty }

/-- Polls once.  The number of ready streams; zero if there is nothing to poll or the poll was
interrupted, and then the readiness of the poll before stays. -/
def select (sel : Selector α) (timeout : Option Duration) (host : Host σ) (s : σ) :
    Except Error Nat × Selector α × σ :=
  let sel := sel.pruneClosed
  let entries := sel.pollEntries
  if entries.isEmpty then (.ok 0, sel, s)
  else
    match host.poll entries timeout s with
    | (.interrupted, s) => (.ok 0, sel, s)
    | (.failed failure, s) => (.error (.io failure "select failed"), sel, s)
    | (.reported report, s) =>
      let sel := sel.applyReadiness (entries.map (·.id)) report
      (.ok sel.ready.length, sel, s)

end Selector

end Supervisor.Poll
