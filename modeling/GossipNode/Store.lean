import GossipNode.Message.Record
import GossipNode.Message.Reconciliation
/-!
# The record store

One log per origin, holding its records in order of their numbers without gaps: the first has number 1.
A record is taken only if it carries exactly the next number; one that skips ahead is dropped, never
kept for later.  The next number of every origin that has a log stands in the status vector, which is kept
beside the logs and is what a status report says.
-/
namespace GossipNode

inductive Acceptance where
  /-- It carried the next number and was stored. -/
  | new
  /-- A record of that number is held. -/
  | duplicate
  /-- It skips ahead and was dropped. -/
  | premature
deriving DecidableEq, Repr

structure Store where
  /-- Per origin, the records held, oldest first.  An origin of which nothing is held has no log. -/
  logs : SortedMap Origin (List Record)
  /-- What has been seen of each origin that has a log. -/
  status : StatusVector
deriving DecidableEq

namespace Store

def empty : Store := ⟨∅, ∅⟩

instance : Inhabited Store := ⟨empty⟩

def log (s : Store) (o : Origin) : List Record := (s.logs.get? o).getD []

/-- The number that comes after a log. -/
def nextAfter (l : List Record) : SequenceId := UInt32.ofNat (l.length + 1)

/-- The next number expected from an origin. -/
def nextId (s : Store) (o : Origin) : SequenceId := s.status.next o

def statusReport (s : Store) : StatusReport := .ofVector s.status

/-- Put a record at the end of its origin's log, and note the number that comes after it. -/
def push (s : Store) (r : Record) : Store :=
  let log := s.log r.origin ++ [r]
  ⟨s.logs.insert r.origin log, s.status.insert r.origin (nextAfter log)⟩

/-- Take a record that carries the next number of its origin. -/
def accept (s : Store) (r : Record) : Acceptance × Store :=
  let next := s.nextId r.origin
  if r.id < next then (.duplicate, s)
  else if next < r.id then (.premature, s)
  else (.new, s.push r)

/-- Store a record made here under the next number of its origin.  `build` is given that number. -/
def appendLocal (s : Store) (o : Origin) (build : SequenceId → Record) : Record × Store :=
  let r := build (s.nextId o)
  (r, s.push r)

def get? (s : Store) (o : Origin) (id : SequenceId) : Option Record :=
  if id = 0 then none else (s.log o)[id.toNat - 1]?

def reconcile (s : Store) (peer : StatusVector) : Reconciliation := s.status.reconcile peer

/-- The earliest record that the peer lacks, of the first origin where the store is ahead. -/
def missingFor (s : Store) (peer : StatusVector) : Option Record :=
  match s.reconcile peer with
  | .selfAhead o => s.get? o (peer.next o)
  | _ => none

/-- Give a peer's store the earliest record that it lacks. -/
def pushTo (s peer : Store) : Option (Record × Acceptance × Store) :=
  (s.missingFor peer.status).map (fun r => (r, peer.accept r))

/-- The round of an unconfirmed proposal: how many unconfirmed proposals its origin logged before. -/
def proposalRound (s : Store) (o : Origin) (id : SequenceId) : Option UInt32 :=
  (s.get? o id).bind fun r =>
    if r.isUnconfirmedProposal then
      some (UInt32.ofNat (((s.log o).take (id.toNat - 1)).countP Record.isUnconfirmedProposal))
    else none

def originCount (s : Store) : Nat := s.logs.size

def recordCount (s : Store) : Nat := s.logs.values.flatten.length

end Store

end GossipNode
