import GossipNode.SortedMap
import GossipNode.Ledger.Block
/-!
# The chain of a topic

Blocks are appended one at a time and never removed.  A block is taken only on the tip, with the hash
it should carry and with a ballot of a voter that has no committed ballot yet; `append` reports the
first condition that fails.
-/
namespace GossipNode

inductive LedgerError where
  | wrongTopic (expected found : String)
  | notOnTip (prev tip : BlockHash)
  | hashMismatch (claimed computed : BlockHash)
  | missingBallot
  | alreadyCommitted (voter : String)
deriving DecidableEq, Repr

namespace LedgerError

def hex (h : BlockHash) : String := Text.Hex.encode h.octets

def message : LedgerError → String
  | wrongTopic expected found => "block belongs to topic " ++ found ++ ", ledger is " ++ expected
  | notOnTip prev tip => "block does not extend tip: prev " ++ hex prev ++ ", tip " ++ hex tip
  | hashMismatch claimed computed =>
    "block hash mismatch: claimed " ++ hex claimed ++ ", computed " ++ hex computed
  | missingBallot => "block carries no ballot"
  | alreadyCommitted voter => "voter " ++ voter ++ " already has a committed ballot"

end LedgerError

/-- The chain of a topic: a genesis block, then the committed blocks, oldest first.  The voters whose ballots these carry
are kept beside them. -/
structure Ledger where
  topic : String
  committed : List Block
  voters : SortedSet String
deriving DecidableEq

namespace Ledger

def new (topic : String) : Ledger := ⟨topic, [], ∅⟩

/-- All blocks, genesis first. -/
def blocks (l : Ledger) : List Block := Block.genesis l.topic :: l.committed

def tip (l : Ledger) : Block := l.committed.getLast?.getD (Block.genesis l.topic)

def tipHash (l : Ledger) : BlockHash := l.tip.currentHash

def isCommitted (l : Ledger) (voter : String) : Bool := l.voters.contains voter

def extendsTip (l : Ledger) (b : Block) : Bool := b.prevHash == l.tipHash

/-- Number of blocks, genesis included. -/
def length (l : Ledger) : Nat := l.blocks.length

/-- Append a block, or say which condition fails first. -/
def append (l : Ledger) (b : Block) : Except LedgerError Ledger :=
  if b.topic ≠ l.topic then .error (.wrongTopic l.topic b.topic)
  else if b.prevHash ≠ l.tipHash then .error (.notOnTip b.prevHash l.tipHash)
  else if b.computedHash ≠ b.currentHash then .error (.hashMismatch b.currentHash b.computedHash)
  else
    match b.voter with
    | none => .error .missingBallot
    | some v =>
      if l.isCommitted v then .error (.alreadyCommitted v)
      else .ok { l with committed := l.committed ++ [b], voters := l.voters.add v }

end Ledger

end GossipNode
