import HadcdAgent.Lib.Run
import HadcdAgent.Lib.PyStr
import HadcdAgent.AgentState
import HadcdAgent.HeatOverride
import HadcdAgent.Lib.Dict
import HadcdAgent.Lib.Exc
import HadcdAgent.Lib.Json
import HadcdAgent.Autonomous.Fallback
import HadcdAgent.Autonomous.Miner
import HadcdAgent.Blob.Delivery
import HadcdAgent.Container.Security
import HadcdAgent.EnvFile
import HadcdAgent.HeatSource.Contract
import HadcdAgent.LocalPolicy
import HadcdAgent.Provisioner
import HadcdAgent.Rental.Session
import HadcdAgent.Vast.Interleaving
import HadcdAgent.Vast.Provider
import HadcdAgent.Vast.Override
import HadcdAgent.Vast.PayoutLog
import HadcdAgent.Vast.Loop
import HadcdAgent.Heartbeat.Offline
import HadcdAgent.Heartbeat.Vacancy
import HadcdAgent.Heartbeat.ConfigAck
import HadcdAgent.Executor
import HadcdAgent.Rental.Naming
import HadcdAgent.Container.Launch
import HadcdAgent.Storage.Pool
import HadcdAgent.Storage.Containment
import HadcdAgent.Storage.Reports
import HadcdAgent.Storage.Collection
import HadcdAgent.Rental.Activation
import HadcdAgent.Lib.MaximalRun
import HadcdAgent.Vast.LocalSchedule
import HadcdAgent.Metering
import HadcdAgent.Blob.TempDir
import HadcdAgent.Blob.ResultPost
import HadcdAgent.Heartbeat.MediaModels
import HadcdAgent.Vast.Freshness
import HadcdAgent.Autonomous.Exclusion
import HadcdAgent.Heartbeat.Demand
import HadcdAgent.Heartbeat.Watchdog
import HadcdAgent.Container.Network
import HadcdAgent.Rental.Overlap
import HadcdAgent.Lib.DockerRun
import HadcdAgent.Rental.Retry
import HadcdAgent.Container.Cleanup
import HadcdAgent.HeatOverride.WayBack
import HadcdAgent.HeatOverride.Writes
import HadcdAgent.Autonomous.Iteration
import HadcdAgent.Vast.Cli
import HadcdAgent.Vast.NeverRaises
import HadcdAgent.Lib.IndexRun
import HadcdAgent.Vast.Windows
import HadcdAgent.Vast.NextWindow
import HadcdAgent.Vast.Boundary
import HadcdAgent.Vast.OneClock
import HadcdAgent.Vast.NodeSettings
import HadcdAgent.EnvFile.Update
import HadcdAgent.EnvFile.MachineId
import HadcdAgent.Lib.Faults
import HadcdAgent.EnvFile.Faults
import HadcdAgent.AgentState.Store
import HadcdAgent.AgentState.Load
import HadcdAgent.HeatSource.Rotation
import HadcdAgent.HeatSource.Setup
import HadcdAgent.HeatSource.Stored
import HadcdAgent.FakeDemand
import HadcdAgent.Lib.Trapezoid
import HadcdAgent.Lib.Escape
import HadcdAgent.Lib.FirstSeen
import HadcdAgent.Lib.Shared
import HadcdAgent.Metering.Window
import HadcdAgent.Lib.Resolve
import HadcdAgent.Blob.Destination
import HadcdAgent.Heartbeat.MediaPaths
import HadcdAgent.Mining.Session
import HadcdAgent.Mining.SessionLog
import HadcdAgent.Mining.Recorded
import HadcdAgent.Mining.Pauses
import HadcdAgent.Heartbeat.MediaParts
import HadcdAgent.Heartbeat.MediaOverlap
import HadcdAgent.WifiProvision.Scan
import HadcdAgent.WifiProvision.RoundTrip
import HadcdAgent.ImageCache.Overrun
import HadcdAgent.WarmModels.Listing
import HadcdAgent.WarmModels.Writers
import HadcdAgent.Lib.FormUrl
import HadcdAgent.Lib.PostBody
import HadcdAgent.Lib.Html
import HadcdAgent.Provisioner.Server
import HadcdAgent.Provisioner.Wizard
import HadcdAgent.WifiProvision.Boot
import HadcdAgent.Storage.Swarm
import HadcdAgent.AgentState.Text
import HadcdAgent.AgentState.Enrollment
import HadcdAgent.WorkLoop
import HadcdAgent.Handlers
import HadcdAgent.HeatFill
import HadcdAgent.Rental.Exposure
