import Supervisor.Bus.Broker
import Supervisor.Sim.World

/-!
# A broker and its clients

A broker on a simulated host, together with what its clients do: they connect, write, and cut
their connections off.  The broker takes notice in its next turn, a poll that does not wait and
the work on what it found.
-/

namespace Supervisor.Sim

open Bus (Broker)

/-- A broker in a simulated world. -/
abbrev Exchange := Broker World

namespace Exchange

/-- Where a broker listens that nobody else has to find. -/
def loopback : Address :=
  .v4 ⟨127, 0, 0, 1⟩ 0

/-- A broker that begins to listen in a world. -/
def opened? (requeue : Config.Requeue) (w : World) : Option Exchange :=
  match Bus.Routing.bind World.host loopback requeue w with
  | (.ok (routing, selector), world) => some { routing with selector, world }
  | (.error _, _) => none

/-- Every address is free in a simulated world. -/
theorem isSome_opened? (requeue : Config.Requeue) (w : World) : (opened? requeue w).isSome = true :=
  rfl

/-- A broker that begins to listen. -/
def opened (requeue : Config.Requeue) (w : World) : Exchange :=
  (opened? requeue w).get (isSome_opened? requeue w)

/-- A client connects; its side of the connection. -/
def dial (x : Exchange) : Option StreamId × Exchange :=
  let (outcome, world) := x.world.connect x.address
  (outcome.toOption, { x with world })

/-- A client writes to its side of a connection. -/
def say (x : Exchange) (mine : StreamId) (b : Wire.Bytes) : Exchange :=
  { x with world := (World.write mine b x.world).2 }

/-- What has arrived at a client that is still connected. -/
def heard (x : Exchange) (mine : StreamId) : Option Wire.Bytes :=
  match x.world.find? mine with
  | some (.socket _ inbound _) => some inbound
  | _ => none

/-- A client cuts its connection off. -/
def cut (x : Exchange) (mine : StreamId) : Exchange :=
  { x with world := x.world.reset mine }

/-- One turn of the broker. -/
def turn (x : Exchange) : Exchange :=
  let (_, selector, world) := x.selector.select (some .zero) World.host x.world
  (Broker.onReady World.host { x with selector, world }).2

/-- A worker connects and says who it is. -/
def join (x : Exchange) (uid : WorkerId) : Exchange :=
  match x.dial with
  | (some mine, x) => (x.turn.say mine (Wire.handshake uid)).turn
  | (none, x) => x

end Exchange

end Supervisor.Sim
