import Supervisor.Sim.World

/-!
# Streams by hand

A workbench holds a simulated host and those of its streams that no selector owns yet.  Streams
are reached wherever they are: on the bench or registered with a selector.  A stream that cannot
be registered is lost, as its owner has given it away.
-/

namespace Supervisor.Sim

open Wire (Bytes)
open Poll (Stream StreamKind Ops Selector)

/-- A host, and the streams on it that are not registered. -/
structure Workbench where
  world : World := {}
  loose : Table .stream Stream := ∅

/-- What can be done with a stream. -/
inductive Act where
  | close
  | read (max : Nat)
  | write (b : Bytes)
  | flush
  | accept
  | look
  /-- Gives a stream on the bench to the selector, with a mask of operations. -/
  | register (mask : UInt8)
  | reregister (mask : UInt8)
  | unregister (mask : UInt8)
  | remove
deriving Repr

/-- What comes of it. -/
inductive Yield where
  /-- There is no such stream. -/
  | missing
  | done
  /-- Nothing there for now. -/
  | nothing
  | data (b : Bytes)
  | written (n : Nat)
  | seen (stream : Stream)
  /-- What is of interest now, if the selector has the stream. -/
  | interest (ops : Option Ops)
  | registered (id : StreamId)
  /-- The stream that the selector handed back, if it did. -/
  | returned (id : Option StreamId)
  | failed (failure : Failure)
  | refused (error : Error)
deriving Repr

namespace Workbench

variable {α : Type}

/-- Opens a stream of a kind; a file has content from the start. -/
def fetch (b : Workbench) (kind : StreamKind) (content : Bytes) : StreamId × Workbench :=
  let (id, world) := b.world.create <| match kind with
    | .listener | .socket => .listener .loopback []
    | .pipe => .pipe [] false
    | .file => .file content 0
  (id, ⟨world, b.loose.insert id { id, kind }⟩)

/-- A stream on the bench or in a selector. -/
def find? (b : Workbench) (sel : Selector α) (id : StreamId) : Option Stream :=
  (b.loose.find? id).or ((sel.keys.find? id).map (·.stream))

/-- What a failure or else an operation on the world yields. -/
def attempt (w : World) : Option Failure → Yield × World → Yield × World
  | some failure, _ => (.failed failure, w)
  | none, r => r

def blocked : Yield :=
  .failed ⟨.wouldBlock, "operation would block"⟩

/-- Does something with an open or closed stream, other than closing it. -/
def perform (w : World) (st : Stream) : Act → Yield × World
  | .read max => attempt w st.transferFailure? <|
    match w.readOnce st.id max with
    | (.data d, w) => (.data d, w)
    | (.failed failure, w) => (.failed failure, w)
    | (_, w) => (blocked, w)
  | .write d => attempt w st.transferFailure? <|
    match w.write st.id d with
    | (.wrote n :: _, w) => (.written n, w)
    | (.failed failure :: _, w) => (.failed failure, w)
    | (_, w) => (blocked, w)
  | .flush => attempt w st.flushFailure? (.done, w)
  | .accept => attempt w st.acceptFailure? (.nothing, w)
  | _ => (.seen st, w)

/-- Gives a stream on the bench to a selector. -/
def register (b : Workbench) (sel : Selector α) (id : StreamId) (ops : Ops) :
    Yield × Workbench × Selector α :=
  match b.loose.find? id with
  | none => (.missing, b, sel)
  | some st =>
    let loose := b.loose.erase id
    match sel.register st ops none with
    | .error e => (.refused e, ⟨b.world.close id, loose⟩, sel)
    | .ok sel => (.registered id, { b with loose }, sel)

/-- Takes a stream that a selector handed back, if it did. -/
def putBack (b : Workbench) (sel : Selector α) : Option Stream → Yield × Workbench × Selector α
  | none => (.returned none, b, sel)
  | some st => (.returned (some st.id), { b with loose := b.loose.insert st.id st }, sel)

/-- Does something with a stream that can be found. -/
def actOn (b : Workbench) (sel : Selector α) (id : StreamId) (a : Act) :
    Yield × Workbench × Selector α :=
  match b.find? sel id, a with
  | none, _ => (.missing, b, sel)
  | some st, .close =>
    match st.close with
    | .error e => (.refused e, b, sel)
    | .ok st => (.done, ⟨b.world.close id, b.loose.modify id fun _ => st⟩, sel.closeStream id)
  | some st, a =>
    let (r, world) := perform b.world st a
    (r, { b with world }, sel)

/-- Does something with a stream.  What is up to the selector alone needs no stream to be found. -/
def act (b : Workbench) (sel : Selector α) (id : StreamId) (a : Act) :
    Yield × Workbench × Selector α :=
  match a with
  | .register mask =>
    match Ops.ofBits mask with
    | .error e => (.refused e, b, sel)
    | .ok ops => b.register sel id ops
  | .reregister mask =>
    match (Ops.ofBits mask).bind (sel.reregister id) with
    | .error e => (.refused e, b, sel)
    | .ok sel => (.interest ((sel.keys.find? id).map (·.interest)), b, sel)
  | .unregister mask =>
    match (Ops.ofBits mask).bind (sel.unregister id) with
    | .error e => (.refused e, b, sel)
    | .ok (sel, st) => b.putBack sel st
  | .remove => b.putBack (sel.remove id) ((sel.keys.find? id).map (·.stream))
  | a => b.actOn sel id a

end Workbench

end Supervisor.Sim
