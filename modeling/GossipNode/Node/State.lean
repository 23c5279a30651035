import GossipNode.Node.Error
import GossipNode.Store
import GossipNode.AckRegistry
import GossipNode.Metrics
import GossipNode.EventBus
import GossipNode.Ledger.BallotBuffer
import GossipNode.Ledger.Round
import GossipNode.Consensus.AckCollector
import GossipNode.Consensus.RoundClock
import GossipNode.Consensus.RoundGate
import GossipNode.Consensus.RoundTracker
import GossipNode.Routing.PeerSet
/-!
# A node and what its tasks do

A node is its shared state and the tasks that work on it.  A task is a *script*: the actions it still
has to take.  An action is what a task does in one go; between two actions of a task, any action of any
other task may come.  What an action does is a `Step`: the node after it, the actions that the task takes
before the rest of its script, and what the step has to tell the world.
-/
namespace GossipNode

/-- The chain of a topic, the ballots waiting for it and the blocks its driver has not taken yet. -/
structure Topic where
  ledger : Ledger
  ballots : BallotBuffer
  feed : List Block
deriving DecidableEq

/-- What is shared about proposals and rounds. -/
structure Broadcast where
  acks : AckCollector
  clock : RoundClock
  /-- Proposals of others to be acknowledged once their round is open. -/
  gate : RoundGate (Origin × SequenceId)
  tracker : RoundTracker
  /-- Own proposals that a task waits to see acknowledged by a majority. -/
  waiting : SortedSet SequenceId

structure Node where
  config : Config
  name : Origin
  address : PeerAddress
  auth : Authenticator
  random : RandomSource
  /-- How many proofs have been made; each has a nonce of its own. -/
  proofs : Nat
  store : Store
  peers : PeerSet
  routes : RoutingTable
  /-- Routes learned and not yet applied. -/
  routeQueue : List RouteUpdate
  acks : AckRegistry
  /-- Notices that their waiting tasks have not taken yet, by ticket. -/
  notices : SortedMap Nat Notice
  broadcast : Broadcast
  /-- Own proposals with a majority that their tasks have not noticed yet. -/
  majorities : SortedSet SequenceId
  /-- How often rounds have closed. -/
  roundChanges : Nat
  /-- Transactions waiting for their round, with the calls that queued them. -/
  proposalQueue : List (Nat × Transaction)
  callCount : Nat
  /-- Calls whose callers still wait. -/
  callers : List Nat
  replies : List (Nat × Except NodeError SequenceId)
  topics : SortedMap String Topic
  /-- Own blocks that are not announced yet. -/
  candidates : List Block
  inbox : List (PeerAddress × Packet)
  /-- Packets may still arrive. -/
  inboxOpen : Bool
  /-- Everything that observers have been told. -/
  events : List NodeEvent
  metrics : Metrics
  /-- No more tasks are started. -/
  down : Bool

/-- Why the round of a proposal is looked up. -/
inductive RoundPurpose where
  /-- The proposal was accepted from a peer and is to be acknowledged. -/
  | acknowledge (via : PeerAddress)
  /-- A confirmation of it was accepted from a peer. -/
  | confirm
  /-- It was made here, for a call, and acknowledgments are to be collected. -/
  | collect (call : Nat) (record : Record) (transaction : Transaction)
deriving DecidableEq, Repr

/-- What is sent in answer to a status report. -/
inductive StatusAnswer where
  /-- A record that the peer lacks. -/
  | push (record : Record)
  /-- The own report, to ask for what is missing here. -/
  | ask (own : StatusReport)
  | nothing
deriving DecidableEq, Repr

/-- What a task does in one go. -/
inductive Action where
  /-- Take the next packet that has arrived and start a task for it; forever. -/
  | receive
  | handle (sender : PeerAddress) (packet : Packet)
  | learn (peer : PeerAddress)
  | accept (sender : PeerAddress) (record : Record)
  /-- Spread an accepted record, and report to who sent it. -/
  | passOn (sender : PeerAddress) (record : Record) (report : StatusReport)
  | compareStatus (sender : PeerAddress) (vector : StatusVector)
  /-- Notify the tasks that wait for a report, then answer it. -/
  | settle (sender : PeerAddress) (vector : StatusVector) (inSync : Bool) (answer : StatusAnswer)
  /-- Apply the next route learned; forever. -/
  | applyRoute
  | forward (destination : Origin) (packet : Packet)
  /-- Choose a peer outside a list and send it the record. -/
  | chooseTarget (record : Record) (excluded : List PeerAddress)
  | sendRecord (record : Record) (peer : PeerAddress)
  | awaitNotice (record : Record) (peer : PeerAddress) (ticket deadline : Nat)
  /-- The wait for a report is over without one. -/
  | giveUp (record : Record) (peer : PeerAddress) (ticket : Nat)
  | awaitPush (tick : Nat)
  | pushStatus (peer : PeerAddress)
  | awaitHeartbeat (tick : Nat)
  | propose (call : Nat) (transaction : Transaction)
  /-- Take the next queued proposal; forever. -/
  | takeProposal
  | awaitRound (call : Nat) (transaction : Transaction)
  | awaitRoundChange (seen call : Nat) (transaction : Transaction)
  | startProposal (call : Nat) (transaction : Transaction)
  | storeProposal (call : Nat) (transaction : Transaction) (vectorClock : Option StatusReport)
  | findRound (origin : Origin) (id : SequenceId) (purpose : RoundPurpose)
  | stampRound (origin : Origin) (id : SequenceId) (round : UInt32) (purpose : RoundPurpose)
  | offerGate (origin : Origin) (id : SequenceId) (round : UInt32) (via : PeerAddress)
  | acknowledge (proposer : Origin) (id : SequenceId) (via : Option PeerAddress)
  | countAck (ack : Ack)
  | startCollection (call : Nat) (record : Record) (round : UInt32) (transaction : Transaction)
  /-- The task of an own proposal begins; `decided` if it has its majority already. -/
  | drive (record : Record) (round : UInt32) (transaction : Transaction) (decided : Bool)
  | awaitMajority (record : Record) (round : UInt32) (transaction : Transaction) (tick : Nat)
  | checkRound (record : Record) (round : UInt32) (transaction : Transaction) (tick : Nat)
  | abandon (id : SequenceId)
  | confirm (id : SequenceId) (round : UInt32) (transaction : Transaction)
  | storeConfirmation (id : SequenceId) (round : UInt32) (transaction : Transaction)
      (vectorClock : Option StatusReport)
  | countConfirmation (origin : Origin) (round : UInt32)
  | openTopic (topic : String)
  | feed (block : Block)
  /-- Announce the next own block; forever. -/
  | publish
  | seekBallot (topic : String) (round : UInt32) (stash : RoundStash)
  | pause (topic : String) (round : UInt32) (stash : RoundStash) (deadline : Nat)
  | collect (topic : String) (stash : RoundStash) (collector : RoundCollector)
  | decide (topic : String) (stash : RoundStash) (collector : RoundCollector)
deriving DecidableEq

/-- What a waiting task may be told about. -/
inductive Signal where
  | packet
  | route
  | notice (ticket : Nat)
  | proposal
  | round
  | majority (id : SequenceId)
  | candidate
  | block (topic : String)
deriving DecidableEq, Repr

/-- What a step tells the world. -/
inductive Effect where
  | send (receiver : PeerAddress) (packet : Packet)
  | spawn (task : String) (script : List Action)
  | signal (s : Signal)
deriving DecidableEq

/-- What an action does. -/
structure Step where
  node : Node
  /-- What the task does before the rest of its script. -/
  next : List Action
  effects : List Effect

namespace Node

/-- A step after which the task has nothing left of this action. -/
def rest (n : Node) : Step := ⟨n, [], []⟩

/-- A step after which the task goes on with these actions. -/
def proceed (n : Node) (next : List Action) : Step := ⟨n, next, []⟩

def emit (n : Node) (e : NodeEvent) : Node := { n with events := n.events ++ [e] }

def round (n : Node) : UInt32 := n.broadcast.tracker.current

/-- When rounds are strict, proposals show what the proposer has seen. -/
def vectorClock (n : Node) : Option StatusReport :=
  if n.config.strictRounds then some n.store.statusReport else none

/-- Store a record made here under the next own number. -/
def append (n : Node) (build : SequenceId → Record) : Record × Node :=
  let (r, store) := n.store.appendLocal n.name build
  (r, { n with store })

end Node

namespace Effect

/-- A task that spreads a record to peers outside a list. -/
def spread (r : Record) (excluded : List PeerAddress) : Effect :=
  .spawn ("monger " ++ r.label) [.chooseTarget r excluded]

/-- A task that sends a record to this peer first. -/
def push (r : Record) (peer : PeerAddress) : Effect :=
  .spawn ("push " ++ r.label ++ " to " ++ peer.text) [.sendRecord r peer]

end Effect

end GossipNode
