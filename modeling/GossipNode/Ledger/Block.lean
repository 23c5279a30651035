import GossipNode.Hash.Sha256
import GossipNode.Text.Hex
import GossipNode.Identity
/-!
# Ballots and blocks

A block commits one ballot to the chain of a topic.  Its hash covers the hash of the block before it
and the digest of the ballot; round, fitness, origin and topic are not covered.  The first block of
every chain is the genesis block, which carries no ballot and whose hash is the digest of nothing.
-/
namespace GossipNode

open Hash

/-- A cast ballot.  Only the two hashes enter the block's hash; the voter is the principal that may
have one committed ballot. -/
structure Ballot where
  voter : String
  voteHash : String
  voterHash : String
deriving DecidableEq, Repr

namespace Ballot

/-- The ballot of a voter for a plain vote, both hashed. -/
def cast (voter vote : String) : Ballot :=
  { voter
    voteHash := Text.Hex.encode (sha256 (utf8 vote)).octets
    voterHash := Text.Hex.encode (sha256 (utf8 voter)).octets }

/-- The octets of a ballot that are hashed: the vote's hash, then the voter's. -/
def content (b : Ballot) : Bytes := utf8 b.voteHash ++ utf8 b.voterHash

def digest (b : Ballot) : Word256 := sha256 b.content

end Ballot

/-- The hash of a chain's first block. -/
def genesisHash : BlockHash := sha256 []

/-- The octets that a block's hash covers. -/
def linkContent (prev : BlockHash) (b : Ballot) : Bytes := prev.octets ++ b.digest.octets

/-- The hash of a block with that ballot on top of `prev`. -/
def contentHash (prev : BlockHash) (b : Ballot) : BlockHash := sha256 (linkContent prev b)

structure Block where
  prevHash : BlockHash
  currentHash : BlockHash
  fitness : UInt64
  round : UInt32
  origin : Origin
  topic : String
  /-- Absent in a genesis block only. -/
  ballot : Option Ballot
deriving DecidableEq, Repr

namespace Block

def genesis (topic : String) : Block :=
  { prevHash := genesisHash, currentHash := genesisHash, fitness := 0, round := 0, origin := ⟨""⟩
    topic, ballot := none }

/-- A block proposed for a round on top of `prev`, carrying its hash. -/
def candidate (prev : BlockHash) (ballot : Ballot) (fitness : UInt64) (round : UInt32)
    (origin : Origin) (topic : String) : Block :=
  { prevHash := prev, currentHash := contentHash prev ballot, fitness, round, origin, topic
    ballot := some ballot }

/-- The hash the block should carry. -/
def computedHash (b : Block) : BlockHash :=
  match b.ballot with
  | some ballot => contentHash b.prevHash ballot
  | none => genesisHash

def voter (b : Block) : Option String := b.ballot.map Ballot.voter

end Block

end GossipNode
