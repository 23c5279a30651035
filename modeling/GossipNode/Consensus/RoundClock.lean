import GossipNode.Identity
/-!
# Rounds of proposals

The k-th unconfirmed proposal in an origin's log, counted from zero, belongs to round k.  The clock
remembers the rounds it was told and, per origin, the round after the latest of them.
-/
namespace GossipNode

structure RoundClock where
  latest : SortedMap Origin UInt32
  stamps : SortedMap Origin (SortedMap SequenceId UInt32)
deriving DecidableEq

namespace RoundClock

def empty : RoundClock := ⟨∅, ∅⟩

instance : Inhabited RoundClock := ⟨empty⟩

/-- The round that the origin's next proposal falls into. -/
def nextRound (c : RoundClock) (o : Origin) : UInt32 := (c.latest.get? o).getD 0

def record (c : RoundClock) (o : Origin) (id : SequenceId) (round : UInt32) : RoundClock :=
  { latest := c.latest.insert o (max (c.nextRound o) (round + 1))
    stamps := c.stamps.alter o (fun ids => (ids.getD ∅).insert id round) }

/-- As `record`; fails at the last round a word can hold, which has no successor. -/
def record? (c : RoundClock) (o : Origin) (id : SequenceId) (round : UInt32) :
    Except Overflow RoundClock := do
  let _ ← succ? round
  return c.record o id round

def roundOf (c : RoundClock) (o : Origin) (id : SequenceId) : Option UInt32 :=
  (c.stamps.get? o).bind (fun ids => ids.get? id)

end RoundClock

end GossipNode
