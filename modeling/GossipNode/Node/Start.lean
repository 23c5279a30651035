import GossipNode.Node.Task
import GossipNode.SocketAddress
/-!
# Starting and stopping a node

A node starts with empty state and a fixed list of tasks.  The periodic tasks and the queue of proposals
depend on the configuration.
-/
namespace GossipNode

inductive StartFault where
  | refused (e : NodeError)
  /-- The number of peers has no majority among the machine's words. -/
  | overflow (o : Overflow)
deriving DecidableEq, Repr

namespace Node

/-- A node that has not seen anything. -/
def new (c : Config) (address : PeerAddress) (random : RandomSource) (auth : Authenticator) :
    Except StartFault Node := do
  c.validate.mapError (fun e => .refused (.config e))
  let threshold ← (threshold? c.peerCount).mapError fun
    | .noPeers => .refused (.consensus .invalidPeerCount)
    | .overflow => .overflow ⟨⟩
  let peers := PeerSet.new address c.bootstrapPeers
  return {
    config := c
    name := c.origin
    address
    auth
    random
    proofs := 0
    store := .empty
    peers
    routes := .empty
    routeQueue := []
    acks := .empty
    notices := ∅
    broadcast := ⟨.new c.origin threshold, .empty, .new, .new threshold, ∅⟩
    majorities := ∅
    roundChanges := 0
    proposalQueue := []
    callCount := 0
    callers := []
    replies := []
    topics := ∅
    candidates := []
    inbox := []
    inboxOpen := true
    events := []
    metrics := { peerCount := peers.size }
    down := false }

def tasks (c : Config) (now : Nat) : List (String × List Action) :=
  let periodic (period : UInt64) (name : String) (first : Action) : List (String × List Action) :=
    if period = 0 then [] else [(name, [first])]
  [("routing updater", [.applyRoute]), ("dispatcher", [.receive]), ("block publisher", [.publish])] ++
    (if c.strictRounds then [("round sender", [Action.takeProposal])] else []) ++
    periodic c.antiEntropyPeriod "anti-entropy" (.awaitPush (now + c.antiEntropyPeriod.toNat)) ++
    periodic c.heartbeatPeriod "heartbeat" (.awaitHeartbeat now)

/-- Who proves blocks under a configuration: a network without a secret has a well-known one. -/
def authenticator? (c : Config) : Except NodeError Authenticator :=
  match c.authSecret with
  | none => .ok (.sharedSecret (utf8 openNetworkSecret))
  | some secret =>
    match Authenticator.ofSecret? (utf8 secret) with
    | some a => .ok a
    | none => .error .emptySecret

/-- Everything that is checked before a node opens its socket; the address to open. -/
def checkStart (c : Config) : Except NodeError SocketAddress := do
  c.validate.mapError .config
  let _ ← authenticator? c
  match SocketAddress.ofText? c.gossipAddr with
  | some a => .ok a
  | none => .error (.invalidAddress ⟨c.gossipAddr⟩)

/-- A packet arrives, if there is room for it and anyone to handle it. -/
def arrive (n : Node) (room : Nat) (sender : PeerAddress) (p : Packet) : Option Node :=
  if n.inboxOpen && !n.down && n.inbox.length < room then
    some { n with inbox := n.inbox ++ [(sender, p)] }
  else none

/-- A call to propose; its number. -/
def openCall (n : Node) : Nat × Node :=
  (n.callCount, { n with callCount := n.callCount + 1, callers := n.callers ++ [n.callCount] })

/-- Stop: no task is left, and none is started.  Callers whose proposals are queued are told. -/
def shutdown (n : Node) : Node :=
  let n := { n with down := true }
  if n.config.strictRounds then
    n.callers.foldl (fun n call => n.reply call (.error .shuttingDown)) n
  else n

end Node

end GossipNode
