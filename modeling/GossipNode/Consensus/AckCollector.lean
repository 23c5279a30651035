import GossipNode.Consensus.Majority
/-!
# Collecting acknowledgments

For each open proposal, the set of distinct origins that acknowledged it.  The own name is in the set
from the start.  A collection closes, and gives out its witnesses, when a majority is reached.
-/
namespace GossipNode

inductive AckProgress where
  /-- No collection is open for that proposal. -/
  | ignored
  /-- That many distinct origins so far, too few. -/
  | pending (count : Nat)
  /-- The collection is closed; these are the witnesses. -/
  | majority (witnesses : List Origin)
deriving DecidableEq, Repr

/-- The open collections, by number of the proposal. -/
structure AckCollector where
  own : Origin
  threshold : Nat
  collecting : SortedMap SequenceId (SortedSet Origin)
deriving DecidableEq

namespace AckCollector

def new (own : Origin) (threshold : Nat) : AckCollector := ⟨own, threshold, ∅⟩

def isCollecting (c : AckCollector) (id : SequenceId) : Bool := c.collecting.contains id

def recordAck (c : AckCollector) (id : SequenceId) (from_ : Origin) : AckProgress × AckCollector :=
  match c.collecting.get? id with
  | none => (.ignored, c)
  | some witnesses =>
    let witnesses := SortedSet.add witnesses from_
    if witnesses.size < c.threshold then
      (.pending witnesses.size, { c with collecting := c.collecting.insert id witnesses })
    else (.majority (SortedSet.toList witnesses), { c with collecting := c.collecting.erase id })

/-- Open a collection, with the own name as first witness. -/
def start (c : AckCollector) (id : SequenceId) : Except ConsensusError (AckProgress × AckCollector) :=
  if c.isCollecting id then .error (.alreadyCollecting id)
  else .ok ({ c with collecting := c.collecting.insert id (SortedSet.ofList [c.own]) }.recordAck id c.own)

/-- Close a collection without a majority; the flag tells whether one was open. -/
def abandon (c : AckCollector) (id : SequenceId) : Bool × AckCollector :=
  (c.isCollecting id, { c with collecting := c.collecting.erase id })

end AckCollector

end GossipNode
