import Cerberus.Audio.Drain
import Cerberus.Audio.Session
import Cerberus.Cabi.Enforcement
import Cerberus.Cabi.Propagation
import Cerberus.Crdt.Beliefs
import Cerberus.Crdt.Counter
import Cerberus.Crdt.KeyValue
import Cerberus.Crdt.Sets
import Cerberus.Dataplane.Delivery
import Cerberus.Dataplane.Grants
import Cerberus.Dataplane.GuardedStream
import Cerberus.Dfs.Loss
import Cerberus.Dfs.RootId
import Cerberus.Discovery.Lock
import Cerberus.Envelope.Caveats
import Cerberus.Gateway.Streaming
import Cerberus.Identity.Admission
import Cerberus.Identity.Windows
import Cerberus.Ledger.Atomicity
import Cerberus.Ledger.Concurrency
import Cerberus.Ledger.Crash
import Cerberus.Ledger.Genesis
import Cerberus.Ledger.Payout
import Cerberus.Mesh.Mediation
import Cerberus.Metrics.RoundTrip
import Cerberus.Ninep.Connection
import Cerberus.Ninep.Listing
import Cerberus.Refinement.Agreement
import Cerberus.Refinement.Registers
import Cerberus.Runtime.Ordering
import Cerberus.Scheduler.Loss
import Cerberus.Scheduler.Standbys
import Cerberus.Settlement.Honesty
import Cerberus.State.Agents
import Cerberus.State.Convergence
import Cerberus.State.Durability
import Cerberus.System.Expiry
import Cerberus.System.Fetching
import Cerberus.System.Intrusion
import Cerberus.System.Placement
import Cerberus.Telemetry.TraceTree
import Cerberus.Token.Custody
import Cerberus.Token.Gossip
import Cerberus.Token.Scope
