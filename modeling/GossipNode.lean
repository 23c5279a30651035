import GossipNode.Text.Quoted
import GossipNode.Hash.Hmac
import GossipNode.Number.Shortest
import GossipNode.SocketAddress
import GossipNode.Ledger.BallotBuffer
import GossipNode.Ledger.Round
import GossipNode.Wire.Datagram
import GossipNode.Store
import GossipNode.Consensus.AckCollector
import GossipNode.Consensus.RoundClock
import GossipNode.Consensus.RoundGate
import GossipNode.Consensus.RoundTracker
import GossipNode.Routing.Table
import GossipNode.Routing.PeerSet
import GossipNode.AckRegistry
import GossipNode.Config.Toml
import GossipNode.Authenticator
import GossipNode.Metrics
import GossipNode.EventBus
import GossipNode.Supervisor
import GossipNode.Node.Start
import GossipNode.Hub
import GossipNode.Simulation
import GossipNode.CommandLine
import GossipNode.Main
import GossipNode.Proofs.Store.Logs
import GossipNode.Proofs.Store.Runs
import GossipNode.Proofs.Network.Logs
import GossipNode.Proofs.Consensus.Provenance
import GossipNode.Proofs.Network.Grounds
import GossipNode.Proofs.Network.Machines
import GossipNode.Proofs.Network.Actions
import GossipNode.Proofs.Network.Commits
import GossipNode.Proofs.Network.Schedules
import GossipNode.Proofs.Ledger.Chain
import GossipNode.Proofs.Ledger.Rounds
import GossipNode.Proofs.Node.Driver
import GossipNode.Proofs.Network.Ledgers
import GossipNode.Proofs.Node.Phases
import GossipNode.Proofs.Wire.Messages
import GossipNode.Proofs.Wire.Formats
import GossipNode.Proofs.Wire.Datagrams
import GossipNode.Proofs.Message.Maxima
import GossipNode.Proofs.Store.Reconciliation
import GossipNode.Proofs.Network.Convergence
import GossipNode.Proofs.Node.Routes
import GossipNode.Proofs.Network.Routes
import GossipNode.Proofs.Consensus.Tally
import GossipNode.Proofs.Node.Successors
import GossipNode.Proofs.Store.Rounds
import GossipNode.Proofs.Node.Counting
import GossipNode.Proofs.Network.Rounds
import GossipNode.Proofs.Node.Changes
import GossipNode.Proofs.Consensus.Holding
import GossipNode.Proofs.Network.Histories
import GossipNode.Proofs.Node.Acknowledging
import GossipNode.Proofs.Network.Acknowledgments
import GossipNode.Proofs.Node.Sending
import GossipNode.Proofs.Network.Pacing
import GossipNode.Proofs.Consensus.Collecting
import GossipNode.Proofs.Node.Confirming
import GossipNode.Proofs.Network.Confirmations
import GossipNode.Proofs.Network.Majorities
import GossipNode.Proofs.Ledger.Validity
import GossipNode.Proofs.Wire.Readings
import GossipNode.Proofs.Network.Arrivals
import GossipNode.Proofs.Wire.Sizes
import GossipNode.Proofs.Node.Ballots
import GossipNode.Proofs.Network.Limits
import GossipNode.Proofs.Node.Relaying
import GossipNode.Proofs.Network.Journeys
import GossipNode.Proofs.Network.Hops
import GossipNode.Proofs.Ledger.Commitment
import GossipNode.Proofs.Registry.Reports
import GossipNode.Proofs.Registry.Notices
import GossipNode.Proofs.Node.Telling
import GossipNode.Proofs.Network.Rumors
import GossipNode.Proofs.Network.Starts
import GossipNode.Proofs.Ledger.Winners
import GossipNode.Proofs.Ledger.Elections
import GossipNode.Proofs.Network.Topics
import GossipNode.Proofs.Node.Feeding
import GossipNode.Proofs.Network.Feeds
import GossipNode.Proofs.Registry.Waits
import GossipNode.Proofs.Node.Books
import GossipNode.Proofs.Network.Counters
import GossipNode.Proofs.Network.Courses
import GossipNode.Proofs.Network.Walks
import GossipNode.Proofs.Consensus.Closing
import GossipNode.Proofs.Consensus.Witnesses
import GossipNode.Proofs.Consensus.Overlap
import GossipNode.Proofs.Text.Order
import GossipNode.Proofs.Store.Comparison
import GossipNode.Proofs.Node.Stamping
import GossipNode.Proofs.Wire.Truncation
import GossipNode.Proofs.Number.Numerals
import GossipNode.Proofs.Toml.Scalars
import GossipNode.Proofs.Toml.Texts
import GossipNode.Proofs.Toml.Documents
import GossipNode.Proofs.Config.RoundTrip
import GossipNode.Proofs.Address.Parts
import GossipNode.Proofs.Address.RoundTrip
import GossipNode.Proofs.Consensus.Releases
