import GossipNode.Ledger.Block
/-!
# Choosing the block of a round

In each round every node proposes one block.  `RoundCollector` counts the first block of each other
origin and keeps the fittest block on the tip; the own block is seen first, so a tie leaves what was
seen earlier.  `RoundStash` keeps blocks whose round has not started here.
-/
namespace GossipNode

inductive Offer where
  /-- The first block of its origin in this round. -/
  | counted
  | duplicate
  | wrongRound
deriving DecidableEq, Repr

/-- The blocks of one round, as far as they matter. -/
structure RoundCollector where
  round : UInt32
  tip : BlockHash
  expectedRemote : Nat
  seen : List Origin
  received : Nat
  best : Block
deriving DecidableEq, Repr

namespace RoundCollector

def new (own : Block) (tip : BlockHash) (expectedRemote : Nat) : RoundCollector :=
  { round := own.round, tip, expectedRemote, seen := [own.origin], received := 0, best := own }

/-- Does the block beat the best one so far?  It has to extend the tip, with more fitness. -/
def beats (c : RoundCollector) (b : Block) : Bool := b.prevHash == c.tip && c.best.fitness < b.fitness

def offer (c : RoundCollector) (b : Block) : Offer × RoundCollector :=
  if b.round ≠ c.round then (.wrongRound, c)
  else if c.seen.contains b.origin then (.duplicate, c)
  else
    (.counted,
      { c with
        seen := b.origin :: c.seen
        received := c.received + 1
        best := if c.beats b then b else c.best })

def isComplete (c : RoundCollector) : Bool := c.expectedRemote ≤ c.received

def winner (c : RoundCollector) : Block := c.best

end RoundCollector

/-- Blocks of rounds that have not started, in the order they came. -/
structure RoundStash where
  held : List Block
deriving DecidableEq, Repr

namespace RoundStash

def empty : RoundStash := ⟨[]⟩

instance : Inhabited RoundStash := ⟨empty⟩

def add (s : RoundStash) (b : Block) : RoundStash := ⟨s.held ++ [b]⟩

def size (s : RoundStash) : Nat := s.held.length

/-- Give out the blocks of a round and drop the older ones. -/
def take (s : RoundStash) (round : UInt32) : List Block × RoundStash :=
  (s.held.filter (fun b => b.round == round), ⟨s.held.filter (fun b => round < b.round)⟩)

/-- As `take`; fails at the last round a word can hold, which has no successor. -/
def take? (s : RoundStash) (round : UInt32) : Except Overflow (List Block × RoundStash) := do
  let _ ← succ? round
  return s.take round

end RoundStash

end GossipNode
