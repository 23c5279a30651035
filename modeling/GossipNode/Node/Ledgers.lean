import GossipNode.Node.Gossip
/-!
# Ledgers of topics

Each topic has a driver.  Round after round it proposes the earliest ballot that is not committed as a
block of random fitness, waits for one block of every other node, and appends the winner.  Without a
ballot it looks again after a pause, and keeps the blocks of this round and later ones that came in.
-/
namespace GossipNode

def Topic.new (name : String) : Topic := ⟨Ledger.new name, .empty, []⟩

namespace Node

def topic (n : Node) (t : String) : Topic := (n.topics.get? t).getD (Topic.new t)

def setTopic (n : Node) (t : String) (s : Topic) : Node := { n with topics := n.topics.insert t s }

/-- Open a topic on first use, and start its driver. -/
def openTopic (n : Node) (t : String) : Step :=
  if n.topics.contains t then n.rest
  else ⟨n.setTopic t (Topic.new t), [], [.spawn ("ledger " ++ t) [.seekBallot t 1 .empty]]⟩

/-- Queue a ballot for a topic; the flag tells whether it was queued. -/
def offerBallot (n : Node) (t : String) (b : Ballot) : Bool × Node :=
  let s := n.topic t
  let (added, ballots) := s.ballots.offer b s.ledger
  (added, n.setTopic t { s with ballots })

/-- Open the topic and queue a ballot for it. -/
def submitBallot (n : Node) (t : String) (b : Ballot) : Bool × Step :=
  let opened := n.openTopic t
  let (added, n) := opened.node.offerBallot t b
  (added, { opened with node := n })

/-- The committed blocks of a topic that is open. -/
def ledgerBlocks (n : Node) (t : String) : Option (List Block) :=
  (n.topics.get? t).map (fun s => s.ledger.committed)

/-- A block of a peer: its ballot waits here too, and the driver gets the block.

The topic is let go once the ballot is in, and then the block is queued.  This is one action, as the task does not wait
in between.  A driver that came there all the same would find the ballot and not yet the block: if it takes the ballot, it
waits for blocks next, and if it finds none to take, it looks again later. -/
def feedBlock (n : Node) (b : Block) : Step :=
  let n := match b.ballot with
    | some ballot => (n.offerBallot b.topic ballot).2
    | none => n
  let s := n.topic b.topic
  ⟨n.setTopic b.topic { s with feed := s.feed ++ [b] }, [], [.signal (.block b.topic)]⟩

/-! ## The driver -/

/-- A collector for an own block that has seen the blocks kept for its round. -/
def openRound (own : Block) (tip : BlockHash) (expectedRemote : Nat) (kept : List Block) :
    RoundCollector :=
  kept.foldl (fun c b => (c.offer b).2) (RoundCollector.new own tip expectedRemote)

/-- Propose the earliest ballot that is not committed; without one, keep what came in and pause.

The topic is let go once the ballot is chosen, and then the block is queued or the feed is emptied.  This is one action,
as the driver does not wait in between.  Who came there all the same might as well have come afterwards: nobody else
appends blocks or takes any from the feed, a ballot that is offered then does not change the choice, and a block that is
fed then is kept now instead of at the next look. -/
def seekBallot (now : Nat) (n : Node) (t : String) (round : UInt32) (stash : RoundStash) : Step :=
  let s := n.topic t
  match s.ballots.nextUncommitted s.ledger with
  | (some ballot, ballots) =>
    let tip := s.ledger.tipHash
    let (fitness, random) := n.random.next
    let own := Block.candidate tip ballot fitness round n.name t
    let (kept, stash) := stash.take round
    let n : Node := { n with random, candidates := n.candidates ++ [own] }
    ⟨n.setTopic t { s with ballots },
      [.collect t stash (openRound own tip (n.config.peerCount.toNat - 1) kept)],
      [.signal .candidate]⟩
  | (none, ballots) =>
    let stash := (s.feed.filter (fun b => round ≤ b.round)).foldl RoundStash.add stash
    (n.setTopic t { s with ballots, feed := [] }).proceed
      [.pause t round stash (now + n.config.ledgerBackoff.toNat)]

def pause (now : Nat) (n : Node) (t : String) (round : UInt32) (stash : RoundStash) (deadline : Nat) :
    List Step :=
  if deadline ≤ now then [n.proceed [.seekBallot t round stash]] else []

/-- Take the next block of the feed, until every other node has contributed to the round. -/
def collect (n : Node) (t : String) (stash : RoundStash) (c : RoundCollector) : List Step :=
  if c.isComplete then [n.proceed [.decide t stash c]]
  else
    let s := n.topic t
    match s.feed with
    | [] => []
    | b :: feed =>
      let n := n.setTopic t { s with feed }
      if c.round < b.round then [n.proceed [.collect t (stash.add b) c]]
      else if b.round = c.round then [n.proceed [.collect t stash (c.offer b).2]]
      else [n.proceed [.collect t stash c]]

/-- Append the winner of a round and start the next. -/
def decide (n : Node) (t : String) (stash : RoundStash) (c : RoundCollector) : Step :=
  let s := n.topic t
  let n := match s.ledger.append c.winner with
    | .ok ledger =>
      { n.setTopic t { s with ledger } with
        metrics := { n.metrics with blocksAppended := n.metrics.blocksAppended + 1 } }.emit
          (.blockAppended t c.winner)
    | .error _ => n
  n.proceed [.seekBallot t (c.round + 1) stash]

/-! ## Announcing -/

/-- The nonce of a proof: no other proof made here has it. -/
def nonce (n : Node) : Word256 := Word256.ofOctets (bigEndian32 (UInt32.ofNat n.proofs))

/-- Announce the next own block, with a proof. -/
def publish (n : Node) : List Step :=
  match n.candidates with
  | [] => []
  | b :: candidates =>
    let proof := n.auth.prove n.nonce
    let (r, n) := { n with candidates, proofs := n.proofs + 1 : Node }.append
      (fun id => .block ⟨n.name, id, b, proof⟩)
    [⟨n, [.publish], [.spread r []]⟩]

end Node

end GossipNode
