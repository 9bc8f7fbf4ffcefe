import Supervisor.Address
import Supervisor.Backend.Fork
import Supervisor.Backend.Spawn
import Supervisor.Backend.Thread
import Supervisor.Blank
import Supervisor.Bus.Broker
import Supervisor.Bus.Client
import Supervisor.Bus.Plan
import Supervisor.CommandLine
import Supervisor.Config.Basic
import Supervisor.Config.Json
import Supervisor.Decimal
import Supervisor.Double
import Supervisor.Duration
import Supervisor.Error
import Supervisor.Id
import Supervisor.Lifecycle.Bus
import Supervisor.Lifecycle.Event
import Supervisor.Lifecycle.Flow
import Supervisor.Log
import Supervisor.Main
import Supervisor.Message
import Supervisor.PidLock
import Supervisor.Poll.Ops
import Supervisor.Poll.Reactor
import Supervisor.Poll.Selector
import Supervisor.Poll.Stream
import Supervisor.Pool.Collection
import Supervisor.Pool.Policy
import Supervisor.Scheduler
import Supervisor.Sim.Crew
import Supervisor.Sim.Errands
import Supervisor.Sim.Jobs
import Supervisor.Sim.Program
import Supervisor.Sim.Script
import Supervisor.Sim.Shell.Run
import Supervisor.Sim.Shell.Syntax
import Supervisor.Sim.Switchboard
import Supervisor.Sim.Workbench
import Supervisor.Sim.World
import Supervisor.Status
import Supervisor.Table
import Supervisor.Wire.Bytes
import Supervisor.Wire.Escape
import Supervisor.Wire.FrameBuffer
import Supervisor.Wire.FrameQueue
import Supervisor.Wire.Handshake
import Supervisor.Wire.Hex
import Supervisor.Wire.Payload
import Supervisor.Wire.Reader
import Supervisor.Worker.Component
import Supervisor.Worker.Echo
import Supervisor.Worker.Loop
import Supervisor.Worker.Record
import Supervisor.Worker.Settings
import Supervisor.Proofs.Wire.RoundTrip
import Supervisor.Proofs.Wire.Framing
import Supervisor.Proofs.Lifecycle.Cascade
import Supervisor.Proofs.Pool.Collection
import Supervisor.Proofs.Pool.Band
import Supervisor.Proofs.Backend.Fork
import Supervisor.Proofs.Backend.Ends
import Supervisor.Proofs.Backend.Children
import Supervisor.Proofs.Bus.Plan
import Supervisor.Proofs.Pool.Lifetimes
import Supervisor.Proofs.Bus.Connections
import Supervisor.Proofs.Bus.Outbound
import Supervisor.Proofs.Bus.Routing
import Supervisor.Sim.Exchange
import Supervisor.Proofs.Bus.Eviction
import Supervisor.Proofs.Bus.Intake
import Supervisor.Proofs.Bus.Backlog
import Supervisor.Proofs.Bus.ConnectionTable
import Supervisor.Proofs.Bus.Phases
import Supervisor.Proofs.Bus.Identity
import Supervisor.Proofs.Bus.Ledger
import Supervisor.Proofs.Bus.Link
import Supervisor.Proofs.Bus.Passage
import Supervisor.Proofs.Wire.Handshake
import Supervisor.Proofs.Wire.Following
import Supervisor.Proofs.Scheduler.Reports
import Supervisor.Proofs.Pool.Acceptance
import Supervisor.Proofs.Worker.Reports
import Supervisor.Proofs.Decimal
import Supervisor.Proofs.PidLock.Ownership
import Supervisor.Proofs.Scheduler.Turns
import Supervisor.Proofs.Scheduler.Calls
import Supervisor.Proofs.Scheduler.Lock
import Supervisor.Proofs.Scheduler.Children
import Supervisor.Proofs.Poll.Selector
import Supervisor.Proofs.Poll.Reactor
import Supervisor.Proofs.Scheduler.Invariants
import Supervisor.Proofs.Scheduler.Signals
import Supervisor.Proofs.Bus.Holdings
import Supervisor.Proofs.Pool.Retirement
import Supervisor.Proofs.Worker.Bracketing
import Supervisor.Proofs.Worker.Replies
import Supervisor.Proofs.Pool.Rest
import Supervisor.Proofs.Wire.Cuts
import Supervisor.Proofs.Wire.Queue
import Supervisor.Proofs.Bus.Greeting
import Supervisor.Proofs.Worker.Callbacks
import Supervisor.Proofs.Backend.Creation
import Supervisor.Proofs.Poll.Selection
import Supervisor.Proofs.Address
import Supervisor.Proofs.Worker.Settings
import Supervisor.Proofs.Bus.Reception
import Supervisor.Proofs.Backend.Replies
import Supervisor.Proofs.Scheduler.Terminating
import Supervisor.Proofs.Wire.Escaping
import Supervisor.Proofs.Backend.Lives
import Supervisor.Proofs.Backend.Pipes
import Supervisor.Proofs.Backend.Output
