import GossipNode.Ledger.Chain
/-!
# Ballots waiting to be committed

A queue with at most one ballot per voter.  A ballot stays queued while it is being proposed and goes
only when the chain shows its voter as committed.
-/
namespace GossipNode

/-- Ballots waiting to be committed, in the order they were offered. -/
structure BallotBuffer where
  pending : List Ballot
deriving DecidableEq, Repr

namespace BallotBuffer

def empty : BallotBuffer := ⟨[]⟩

instance : Inhabited BallotBuffer := ⟨empty⟩

def holds (q : BallotBuffer) (voter : String) : Bool := q.pending.any (fun b => b.voter == voter)

/-- Queue a ballot unless its voter is queued or committed; the flag tells whether it was queued. -/
def offer (q : BallotBuffer) (b : Ballot) (l : Ledger) : Bool × BallotBuffer :=
  if l.isCommitted b.voter || q.holds b.voter then (false, q)
  else (true, ⟨q.pending ++ [b]⟩)

/-- Forget the ballots of committed voters and show the earliest of the others. -/
def nextUncommitted (q : BallotBuffer) (l : Ledger) : Option Ballot × BallotBuffer :=
  let left := q.pending.filter (fun b => !l.isCommitted b.voter)
  (left.head?, ⟨left⟩)

end BallotBuffer

end GossipNode
