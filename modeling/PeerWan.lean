import PeerWan.Lib.Table
import PeerWan.Lib.Runs
import PeerWan.Lib.Append
import PeerWan.Lib.Window
import PeerWan.Lib.Follow
import PeerWan.Model
import PeerWan.Text
import PeerWan.Store
import PeerWan.Topology
import PeerWan.PolicyRules
import PeerWan.Controller.Plans
import PeerWan.Controller.Handlers
import PeerWan.Controller.Counters
import PeerWan.Controller.Effects
import PeerWan.Controller.Records
import PeerWan.PolicyFrame
import PeerWan.Versions
import PeerWan.Freshness
import PeerWan.Producers
import PeerWan.Rollback
import PeerWan.Agent.Plan
import PeerWan.Agent.Session
import PeerWan.Agent.Threads
import PeerWan.LastWrite
import PeerWan.System
import PeerWan.Controller.Hub
import PeerWan.Controller.Tasks
import PeerWan.TaskSteps
import PeerWan.SaveOrder
import PeerWan.PolicyPaths
import PeerWan.Lib.KV
import PeerWan.Consul.Store
import PeerWan.Consul.Calls
import PeerWan.Consul.Keys
import PeerWan.Lib.ReadModifyWrite
import PeerWan.Consul.LostUpdate
import PeerWan.Consul.Agreement
import PeerWan.Controller.Settings
import PeerWan.Controller.StoreMaps
import PeerWan.LawfulStore
import PeerWan.RefusedRollback
import PeerWan.Lib.Net
import PeerWan.Lib.Blocks
import PeerWan.Lib.Overwrite
import PeerWan.Agent.Render
import PeerWan.Agent.EgressPrefixes
import PeerWan.Agent.Kernel
import PeerWan.Agent.NextHops
import PeerWan.Agent.DefaultRoute
import PeerWan.Agent.Convergence
import PeerWan.Agent.Directives
import PeerWan.Signatures
import PeerWan.SignedHistory
import PeerWan.Provisioning
import PeerWan.Overlays
import PeerWan.FailedReads
import PeerWan.Controller.Routes
import PeerWan.Outsider
import PeerWan.Lib.StableSort
import PeerWan.PeerPlans
import PeerWan.Diagnose
import PeerWan.PlanAnswers
import PeerWan.VersionTexts
import PeerWan.RecordVersions
import PeerWan.SettingsRaces
import PeerWan.Accounts
import PeerWan.Reports
import PeerWan.Agent.Multihop
import PeerWan.Lib.AddrText
import PeerWan.Agent.Table52
import PeerWan.Registers
import PeerWan.Lib.Pairs
import PeerWan.LinkStatuses
import PeerWan.TelemetryKeys
import PeerWan.Lib.IPBytes
import PeerWan.Agent.Endpoints
import PeerWan.Agent.GeoIP
import PeerWan.Agent.VerifyTargets
import PeerWan.Agent.PolicyOps
import PeerWan.HealthWindow
import PeerWan.Agent.BgpAddresses
import PeerWan.Agent.Tunnels
import PeerWan.Agent.TunnelManager
import PeerWan.Agent.NatRules
import PeerWan.FailedSaves
import PeerWan.Lib.TwoOrders
import PeerWan.Consul.History
import PeerWan.Lib.Json
import PeerWan.Consul.NodeRecords
import PeerWan.LogStream
import PeerWan.Logins
import PeerWan.LongPoll
import PeerWan.Agent.WireMessages
import PeerWan.Mesh
import PeerWan.Enrollment
import PeerWan.Agent.SelfHeal
import PeerWan.Lib.Filed
import PeerWan.Consul.Journals
import PeerWan.Fleet
import PeerWan.Forwarding
import PeerWan.Lib.Files
import PeerWan.Agent.GeoCache
import PeerWan.ProvisionRaces
import PeerWan.Consul.Unstored
import PeerWan.NamedVersions
import PeerWan.PolicyLineage
