import Quelay.Lib.Machine
import Quelay.Lib.StableInsert
import Quelay.Lib.RoundRobin
import Quelay.Lib.Windows
import Quelay.Domain.Scheduler
import Quelay.Domain.SchedulerTables
import Quelay.Domain.SchedulerFairness
import Quelay.Domain.SchedulerBudget
import Quelay.Agent.AggregateRateLimiter
import Quelay.Agent.RateCeiling
import Quelay.Lib.Notify
import Quelay.Agent.Spool
import Quelay.Agent.Transfer.State
import Quelay.Agent.Transfer.Step
import Quelay.Agent.Transfer.Cases
import Quelay.Agent.Transfer.Lane
import Quelay.Agent.Transfer.Delivery
import Quelay.Agent.Transfer.Life
import Quelay.Agent.Transfer.Backpressure
import Quelay.Agent.Transfer.Run
import Quelay.Agent.Transfer.Signals
import Quelay.Agent.Transfer.Handover
import Quelay.Agent.Transfer.Outcome
import Quelay.Agent.Transfer.Parked
import Quelay.Agent.Transfer.Uncapped
import Quelay.Agent.Transfer.Capped
import Quelay.Agent.Framing
import Quelay.Agent.SessionManager.State
import Quelay.Agent.SessionManager.Cases
import Quelay.Agent.SessionManager.Queue
import Quelay.Agent.SessionManager.Conserving
import Quelay.Agent.SessionManager.Uplinks
import Quelay.Agent.Transfer.LinkUps
import Quelay.Agent.Transfer.Newest
import Quelay.Agent.SessionManager.AcceptLoop
import Quelay.Agent.Transfer.Acks
import Quelay.Agent.Transfer.Pairing
import Quelay.Agent.Transfer.Resume
import Quelay.Domain.SchedulerTurns
import Quelay.Domain.SchedulerWork
import Quelay.Domain.SchedulerStrict
import Quelay.Domain.SchedulerBacklog
import Quelay.Domain.SchedulerDeficit
import Quelay.Agent.PumpDrain
import Quelay.Agent.Registrations
import Quelay.Agent.SessionManager.Snapshots
import Quelay.Agent.SessionManager.Admission
import Quelay.Agent.Reassembly
import Quelay.Agent.Transfer.Tally
import Quelay.Agent.RateParams
import Quelay.Agent.Ring
import Quelay.Lib.Refine
import Quelay.Lib.Frames
import Quelay.Agent.Transfer.Wire
import Quelay.Agent.Transfer.WireFrames
import Quelay.Agent.Transfer.WireSteps
import Quelay.Agent.Transfer.WireJson
import Quelay.Agent.Transfer.WireRefines
import Quelay.Agent.Transfer.Progress
import Quelay.Agent.Transfer.Undisturbed
import Quelay.Agent.Transfer.Flow
import Quelay.Thrift.Mapping
import Quelay.Agent.CallbackAgent
import Quelay.Agent.SessionManager.Peers
import Quelay.Agent.SessionManager.Downlinks
import Quelay.Agent.SessionManager.Commands
import Quelay.Lib.Settles
import Quelay.Agent.Transfer.Drain
import Quelay.Agent.SessionManager.Converge
