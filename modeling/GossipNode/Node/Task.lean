import GossipNode.Node.Forwarding
import GossipNode.Node.Proposals
import GossipNode.Node.Ledgers
/-!
# Actions

`perform` says what an action does.  It lists the steps that may be taken: none while the action has to
wait, two when a wait can end in two ways.  `Action.signal?` and `Action.deadline?` say what can end a
wait.
-/
namespace GossipNode

namespace Node

/-- Take the next packet that has arrived and start a task for it.  Once no more can arrive, the
last one taken is the end. -/
def receive (n : Node) : List Step :=
  match n.inbox with
  | [] => if n.inboxOpen then [] else [n.rest]
  | (sender, p) :: inbox =>
    [⟨{ n with inbox }, [.receive], [.spawn "dispatch" [.handle sender p]]⟩]

def handle (n : Node) (sender : PeerAddress) (p : Packet) : Step :=
  match p with
  | .status report => n.proceed [.learn sender, .compareStatus sender report.toVector]
  | .searchRequest m => if m.origin = n.name then n.rest else (n.emit (.contentPacket p)).rest
  | _ =>
    match p.destination?, Record.ofPacket? p with
    | some d, _ => n.relay d p
    | none, some r => n.proceed [.learn sender, .accept sender r]
    | none, none => n.rest

/-- The steps by which a node may take an action at a time. -/
def perform (now : Nat) (n : Node) : Action → List Step
  | .receive => n.receive
  | .handle sender p => [n.handle sender p]
  | .learn peer => [(n.learnPeer peer).rest]
  | .accept sender r => [n.accept sender r]
  | .passOn sender r report => [n.passOn sender r report]
  | .compareStatus sender v => [n.compareStatus sender v]
  | .settle sender v inSync a => [n.settle sender v inSync a]
  | .applyRoute => n.applyRoute
  | .forward d p => [n.forward d p]
  | .chooseTarget r excluded => [n.chooseTarget r excluded]
  | .sendRecord r peer => [n.sendRecord now r peer]
  | .awaitNotice r peer ticket deadline => n.awaitNotice now r peer ticket deadline
  | .giveUp r peer ticket => [n.giveUp r peer ticket]
  | .awaitPush tick => n.awaitPush now tick
  | .pushStatus peer => [n.pushStatus peer]
  | .awaitHeartbeat tick => n.awaitHeartbeat now tick
  | .propose call tx => [n.propose call tx]
  | .takeProposal => n.takeProposal
  | .awaitRound call tx => [n.awaitRound call tx]
  | .awaitRoundChange seen call tx => n.awaitRoundChange seen call tx
  | .startProposal call tx => [n.startProposal call tx]
  | .storeProposal call tx clock => [n.storeProposal call tx clock]
  | .findRound o id purpose => [n.findRound o id purpose]
  | .stampRound o id round purpose => [n.stampRound o id round purpose]
  | .offerGate o id round via => [n.offerGate o id round via]
  | .acknowledge proposer id via => [n.acknowledge proposer id via]
  | .countAck a => [n.countAck a]
  | .startCollection call r round tx => [n.startCollection call r round tx]
  | .drive r round tx decided => [n.drive now r round tx decided]
  | .awaitMajority r round tx tick => n.awaitMajority now r round tx tick
  | .checkRound r round tx tick => [n.checkRound r round tx tick]
  | .abandon id => [n.abandon id]
  | .confirm id round tx => [n.confirm id round tx]
  | .storeConfirmation id round tx clock => [n.storeConfirmation id round tx clock]
  | .countConfirmation o round => [n.countConfirmation o round]
  | .openTopic t => [n.openTopic t]
  | .feed b => [n.feedBlock b]
  | .publish => n.publish
  | .seekBallot t round stash => [n.seekBallot now t round stash]
  | .pause t round stash deadline => n.pause now t round stash deadline
  | .collect t stash c => n.collect t stash c
  | .decide t stash c => [n.decide t stash c]

end Node

namespace Action

/-- What a task that waits with this action is told by. -/
def signal? : Action → Option Signal
  | receive => some .packet
  | applyRoute => some .route
  | awaitNotice _ _ ticket _ => some (.notice ticket)
  | takeProposal => some .proposal
  | awaitRoundChange .. => some .round
  | awaitMajority r .. => some (.majority r.id)
  | publish => some .candidate
  | collect t .. => some (.block t)
  | _ => none

/-- When the wait of this action ends by itself. -/
def deadline? : Action → Option Nat
  | awaitNotice _ _ _ deadline => some deadline
  | awaitPush tick => some tick
  | awaitHeartbeat tick => some tick
  | awaitMajority _ _ _ tick => some tick
  | pause _ _ _ deadline => some deadline
  | _ => none

end Action

end GossipNode
