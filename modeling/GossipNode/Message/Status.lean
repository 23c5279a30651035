import GossipNode.Identity
/-!
# What a node has seen

A status vector maps each origin to the next record number expected from it; an origin that is absent
counts as 1.  A status report carries such a vector as a list of entries, in any order and possibly
with repetitions; it means the pointwise maximum of its entries.
-/
namespace GossipNode

abbrev StatusVector := SortedMap Origin SequenceId

/-- The next number expected from an origin. -/
def StatusVector.next (v : StatusVector) (o : Origin) : SequenceId := (SortedMap.get? v o).getD 1

structure StatusEntry where
  identifier : Origin
  nextId : SequenceId
deriving DecidableEq, Repr

structure StatusReport where
  want : List StatusEntry
deriving DecidableEq, Repr

namespace StatusReport

/-- The report of a vector, ascending by origin. -/
def ofVector (v : StatusVector) : StatusReport := ⟨v.entries.map (fun e => ⟨e.1, e.2⟩)⟩

/-- Raise an origin's entry to at least this number. -/
def raise (v : StatusVector) (e : StatusEntry) : StatusVector :=
  v.alter e.identifier (fun old => match old with | some n => max n e.nextId | none => e.nextId)

/-- The vector that a report means. -/
def toVector (r : StatusReport) : StatusVector := r.want.foldl raise ∅

end StatusReport

end GossipNode
