import GossipNode.Identity
import GossipNode.Random.Source
/-!
# Known peers

The peers a node gossips with: those it was configured with and the senders of what it receives.  The
node itself is never one of them.
-/
namespace GossipNode

structure PeerSet where
  own : PeerAddress
  members : SortedSet PeerAddress
deriving DecidableEq

namespace PeerSet

/-- Add a peer; the flag tells whether it was not known. -/
def insert (s : PeerSet) (p : PeerAddress) : Bool × PeerSet :=
  if p = s.own || SortedMap.contains s.members p then (false, s)
  else (true, { s with members := SortedSet.add s.members p })

def new (own : PeerAddress) (bootstrap : List PeerAddress) : PeerSet :=
  bootstrap.foldl (fun s p => (s.insert p).2) ⟨own, ∅⟩

def contains (s : PeerSet) (p : PeerAddress) : Bool := SortedMap.contains s.members p

def all (s : PeerSet) : List PeerAddress := SortedSet.toList s.members

def size (s : PeerSet) : Nat := SortedMap.size s.members

/-- The peers outside a list. -/
def eligible (s : PeerSet) (excluded : List PeerAddress) : List PeerAddress :=
  s.all.filter (fun p => !excluded.contains p)

/-- A random peer outside a list. -/
def randomExcluding (s : PeerSet) (excluded : List PeerAddress) (r : RandomSource) :
    Option PeerAddress × RandomSource :=
  let candidates := s.eligible excluded
  let (i, r') := r.pick candidates.length
  (i.bind (fun i => candidates[i]?), r')

end PeerSet

end GossipNode
