import AurumActors.Foundation.CyclicWalk
import AurumActors.Foundation.Bytes
import AurumActors.Foundation.Maps
import AurumActors.Foundation.Pools
import AurumActors.Foundation.Run
import AurumActors.Foundation.DeltaLog
import AurumActors.Foundation.While
import AurumActors.Foundation.Words
import AurumActors.Foundation.Windows
import AurumActors.Foundation.Blocks
import AurumActors.Macros.AurumInterface
import AurumActors.Macros.Unify
import AurumActors.Core.Remoting
import AurumActors.Core.Packets
import AurumActors.Core.UdpSerial
import AurumActors.Core.Framing
import AurumActors.Core.UdpReceiver
import AurumActors.Core.Progress
import AurumActors.Core.Bounds
import AurumActors.Core.Timeouts
import AurumActors.Core.Runts
import AurumActors.Core.Reassembly
import AurumActors.Core.ActorTasks
import AurumActors.Core.Registry
import AurumActors.Core.Renewal
import AurumActors.Core.RemoteMessages
import AurumActors.Core.Unification
import AurumActors.Core.RemoteDelivery
import AurumActors.Cluster.Member
import AurumActors.Cluster.NodeRing
import AurumActors.Cluster.RingNeighbours
import AurumActors.Cluster.RingHistory
import AurumActors.Cluster.RingQueries
import AurumActors.Cluster.Gossip
import AurumActors.Cluster.Cluster
import AurumActors.Cluster.Handlers
import AurumActors.Cluster.Inversion
import AurumActors.Cluster.Outcomes
import AurumActors.Cluster.Representation
import AurumActors.Cluster.UpdateStream
import AurumActors.Cluster.Provenance
import AurumActors.Cluster.GossipNet
import AurumActors.Cluster.HeartbeatReceivers
import AurumActors.Cluster.Timers
import AurumActors.Cluster.GossipTimer
import AurumActors.Cluster.PingPhase
import AurumActors.Cluster.IntervalStorage
import AurumActors.Cluster.HeartbeatReceiver
import AurumActors.Cluster.Watchers
import AurumActors.Cluster.Detection
import AurumActors.Cluster.Coverage
import AurumActors.Crdt.Causal
import AurumActors.Crdt.Bookkeeping
import AurumActors.Crdt.Dissemination
import AurumActors.Crdt.Incarnation
import AurumActors.Crdt.AckSoundness
import AurumActors.Crdt.Alignment
import AurumActors.Crdt.Dispersal
import AurumActors.Crdt.Recipients
import AurumActors.Crdt.DisperseTimers
import AurumActors.Crdt.Exactness
import AurumActors.Devices.Devices
import AurumActors.Devices.DeltaState
import AurumActors.Devices.DeviceServer
import AurumActors.Devices.Intervals
import AurumActors.Devices.Forwarding
import AurumActors.Devices.View
import AurumActors.Devices.Retired
import AurumActors.Devices.FrequencyBuffer
import AurumActors.Devices.DeviceClient
import AurumActors.Devices.Recalibration
import AurumActors.Devices.SenderTicks
import AurumActors.Devices.ClientActor
import AurumActors.Devices.ClientRuns
import AurumActors.Devices.Announcements
import AurumActors.Cluster.Subscriptions
import AurumActors.Crdt.Peers
import AurumActors.Crdt.Replication
import AurumActors.Devices.Routing
