import GossipNode.Identity
/-!
# Closing rounds

A round closes when a majority of origins have a confirmed proposal in it.  Rounds close strictly in
order: one that has its majority early waits for those before it.
-/
namespace GossipNode

/-- A closed round and the origins whose confirmed proposals closed it. -/
structure RoundClosed where
  round : UInt32
  witnesses : List Origin
deriving DecidableEq, Repr

structure RoundTracker where
  threshold : Nat
  current : UInt32
  confirmed : SortedMap UInt32 (SortedSet Origin)
deriving DecidableEq

namespace RoundTracker

def new (threshold : Nat) : RoundTracker := ⟨threshold, 0, ∅⟩

/-- Origins with a confirmed proposal in a round that is still open. -/
def witnesses (t : RoundTracker) (round : UInt32) : SortedSet Origin :=
  (t.confirmed.get? round).getD ∅

/-- Close the current round while it has a majority, at most `fuel` times. -/
def closeRounds : Nat → RoundTracker → List RoundClosed × RoundTracker
  | 0, t => ([], t)
  | fuel + 1, t =>
    if t.confirmed.contains t.current && t.threshold ≤ (t.witnesses t.current).size then
      let closed : RoundClosed := ⟨t.current, SortedSet.toList (t.witnesses t.current)⟩
      let (rest, t') := closeRounds fuel
        { t with confirmed := t.confirmed.erase t.current, current := t.current + 1 }
      (closed :: rest, t')
    else ([], t)

/-- Note that an origin confirmed a proposal of a round; the rounds that this closes, in order.  Every
closing round uses up one entry, so there are no more of them than entries. -/
def recordConfirmation (t : RoundTracker) (o : Origin) (round : UInt32) :
    List RoundClosed × RoundTracker :=
  if round < t.current then ([], t)
  else
    let t := { t with confirmed := t.confirmed.insert round (SortedSet.add (t.witnesses round) o) }
    closeRounds t.confirmed.size t

end RoundTracker

end GossipNode
