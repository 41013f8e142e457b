import Stouter.Transition.Basic
import Stouter.Maps.Basic
import Stouter.Lists.Basic
import Stouter.Histories.Basic
import Stouter.Registers.Basic
import Stouter.Streams.Basic
import Stouter.Serde.Basic
import Stouter.Rotation.Basic
import Stouter.Text.Basic
import Stouter.Tickets.Basic
import Stouter.Budget.Basic
import Stouter.Crash.Basic
import Stouter.Files.Basic
import Stouter.Snapshots.Basic
import Stouter.Doubling.Basic
import Stouter.Config.Basic
import Stouter.Config.Mutations
import Stouter.Config.SocketAddr
import Stouter.Config.Validate
import Stouter.Config.Entries
import Stouter.Config.AdminValidity
import Stouter.Config.Footprint
import Stouter.Config.ServiceMap
import Stouter.Config.ListenerPorts
import Stouter.Config.WriteAtomic
import Stouter.Gossip.Store
import Stouter.Gossip.VersionOrder
import Stouter.Gossip.SharedFile
import Stouter.Gossip.Membership
import Stouter.Gossip.Messages
import Stouter.Gossip.Cluster
import Stouter.Gossip.Steps
import Stouter.Gossip.Agreement
import Stouter.Gossip.Departure
import Stouter.Gossip.IndexCoherence
import Stouter.Gossip.Indexes
import Stouter.Gossip.Table
import Stouter.Gossip.Routability
import Stouter.Gossip.HealthReports
import Stouter.Gossip.Relays
import Stouter.Gossip.Changes
import Stouter.Gossip.Convergence
import Stouter.Gossip.Discovery
import Stouter.Gossip.TableUpdates
import Stouter.Subscribe.Balancer
import Stouter.Subscribe.SlotAccounting
import Stouter.Subscribe.RoundRobin
import Stouter.Subscribe.Ejection
import Stouter.Subscribe.Instances
import Stouter.Subscribe.ServiceIndex
import Stouter.Subscribe.Registry
import Stouter.Subscribe.Reconcile
import Stouter.Subscribe.HostResolution
import Stouter.Subscribe.Headers
import Stouter.Subscribe.Attempt
import Stouter.Subscribe.Clients
import Stouter.Subscribe.RetryBudget
import Stouter.Subscribe.NodeAuthority
import Stouter.Subscribe.Liveness
import Stouter.Subscribe.MuxPool
import Stouter.Subscribe.StreamPool
import Stouter.Subscribe.WarmPool
import Stouter.Health.Rounds
import Stouter.Wire.Frame
import Stouter.Wire.Proxy
import Stouter.Wire.CopyLoop
import Stouter.Wire.CopyRefinement
import Stouter.Wire.IdleTimeout
import Stouter.Wire.Tunnel
import Stouter.Wire.LossyText
import Stouter.Wire.Encoding
import Stouter.Wire.MessageCodec
import Stouter.Subscribe.Routing
import Stouter.Subscribe.TraceContext
import Stouter.Subscribe.Forward
import Stouter.Subscribe.Dispatch
import Stouter.Cli.ServiceMove
import Stouter.Pki.Trust
import Stouter.Node.Drain
import Stouter.Node.Tunnels
import Stouter.Subscribe.Establish
import Stouter.Node.ReversePool
import Stouter.Health.Probe
import Stouter.Telemetry.Exporter
import Stouter.Telemetry.Otlp
