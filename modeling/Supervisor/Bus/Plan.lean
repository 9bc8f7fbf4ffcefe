import Supervisor.Message

/-!
# Where an envelope goes

The routing decision for one envelope, given who is connected and what the dice say.  Neither the
sender nor the scheduler's own id ever receives a broadcast.  Random picks are drawn without
replacement: each roll picks one of the workers that are left.
-/

namespace Supervisor.Bus

/-- The fate of an envelope in one routing pass. -/
inductive Delivery where
  /-- For the routing process itself. -/
  | atHome
  /-- For these connected workers. -/
  | recipients (uids : List WorkerId)
  /-- Too few recipients for now. -/
  | requeue
  /-- For a worker that is not connected. -/
  | drop
deriving DecidableEq, Repr

/-- Draws `n` different elements; the rolls say which of those left comes next. -/
def draw {α : Type} : Nat → (Nat → Nat) → List α → List α
  | 0, _, _ => []
  | _ + 1, _, [] => []
  | n + 1, rolls, x :: xs =>
    let i := rolls 0 % (xs.length + 1)
    (x :: xs)[i]?.getD x :: draw n (fun k => rolls (k + 1)) ((x :: xs).eraseIdx i)

/-- The connected workers that a broadcast of `sender` may reach, in connected order. -/
def candidates (sender : WorkerId) (connected : List WorkerId) : List WorkerId :=
  connected.filter fun uid => uid ≠ sender ∧ ¬ uid.isServer

/-- Decides where an envelope goes. -/
def plan (e : Envelope) (connected : List WorkerId) (rolls : Nat → Nat) : Delivery :=
  let others := candidates e.sender connected
  match e.audience with
  | .all => .recipients others
  | .any => if others.isEmpty then .requeue else .recipients (draw 1 rolls others)
  | .amount =>
    if others.length < e.number.toNat then .requeue
    else .recipients (draw e.number.toNat rolls others)
  | .selected =>
    let target : WorkerId := ⟨e.number⟩
    if target.isServer then .atHome
    else if target ∈ connected then .recipients [target]
    else .drop
  | .server | .sender => .atHome

end Supervisor.Bus
