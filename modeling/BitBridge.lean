import BitBridge.Lib.Steps
import BitBridge.Lib.Proactor
import BitBridge.Lib.CopyLoop
import BitBridge.Lib.Circle
import BitBridge.Lib.Stoi
import BitBridge.Lib.Search
import BitBridge.Lib.TomlString
import BitBridge.Lib.Positions
import BitBridge.Lib.Ranks
import BitBridge.Lib.Word
import BitBridge.Lib.XorMultiply
import BitBridge.Lib.Atomic
import BitBridge.Bytes
import BitBridge.Proxy.Buffer
import BitBridge.Proxy.Session
import BitBridge.Proxy.SessionInv
import BitBridge.Proxy.World
import BitBridge.Proxy.Relay
import BitBridge.Proxy.ShutdownFinal
import BitBridge.Proxy.IdleTimeout
import BitBridge.Proxy.ConnectTimeout
import BitBridge.Proxy.HalfClose
import BitBridge.Proxy.Liveness
import BitBridge.Config.Model
import BitBridge.Config.ServiceNode
import BitBridge.Config.Ipv4
import BitBridge.State.ServicePool
import BitBridge.State.Concurrent
import BitBridge.Routing.ConsistentHash
import BitBridge.Routing.P2C
import BitBridge.Routing.Xoshiro256
import BitBridge.Routing.HashRing
import BitBridge.Routing.FnvHash
import BitBridge.Routing.Choice
import BitBridge.Health.HealthChecker
import BitBridge.Health.Monitor
import BitBridge.Health.Rounds
import BitBridge.Health.Stop
import BitBridge.Health.Rest
import BitBridge.Health.Order
import BitBridge.LoadBalancer.System
import BitBridge.LoadBalancer.Steps
import BitBridge.LoadBalancer.Parts
import BitBridge.LoadBalancer.Counters
import BitBridge.LoadBalancer.Limit
import BitBridge.LoadBalancer.Main
import BitBridge.LoadBalancer.AcceptLoop
import BitBridge.LoadBalancer.Drain
import BitBridge.LoadBalancer.Exit
import BitBridge.LoadBalancer.Dispatch
import BitBridge.LoadBalancer.Dispatcher
import BitBridge.LoadBalancer.Affinity
import BitBridge.Config.Serializer
import BitBridge.Config.FailedLoad
import BitBridge.Config.Overlay
import BitBridge.Config.SaveReports
import BitBridge.Ui.MainFrame
import BitBridge.Ui.RemoveSelection
import BitBridge.Ui.Toml
import BitBridge.Ui.AppSettings
import BitBridge.Ui.SettingsRoundTrip
import BitBridge.Ui.Startup
import BitBridge.Ui.ServiceList
import BitBridge.Bench.Driver
import BitBridge.Bench.Accounting
import BitBridge.Bench.Arguments
import BitBridge.Bench.Baseline
import BitBridge.Bench.Report
import BitBridge.Bench.Scan
import BitBridge.Bench.Main
