import GossipNode.Identity
/-!
# Majorities

Half of the peers, rounded up, and at least one.
-/
namespace GossipNode

/-- The least number of distinct origins that is a majority of `n` peers. -/
def majority (n : Nat) : Nat := max ((n + 1) / 2) 1

inductive MajorityFault where
  | noPeers
  /-- The count has no successor among the 64-bit words. -/
  | overflow
deriving DecidableEq, Repr

/-- The sum behind a majority is one of 64-bit words. -/
def wordMajority? (n : UInt64) : Except Overflow Nat :=
  if n.toNat + 1 < UInt64.size then .ok (majority n.toNat) else .error ⟨⟩

def threshold? (peerCount : UInt64) : Except MajorityFault Nat :=
  if peerCount = 0 then .error .noPeers
  else (wordMajority? peerCount).mapError (fun _ => .overflow)

theorem majority_pos (n : Nat) : 0 < majority n := Nat.le_max_right _ _

theorem wordMajority?_eq_ok {peers : UInt64} (room : peers.toNat + 1 < UInt64.size) :
    wordMajority? peers = .ok (majority peers.toNat) := if_pos room

theorem threshold?_eq {peers : UInt64} (positive : peers ≠ 0) :
    threshold? peers = (wordMajority? peers).mapError (fun _ => .overflow) := if_neg positive

/-- Every number of peers that has a successor has a majority. -/
theorem threshold?_eq_ok {peers : UInt64} (low : 1 ≤ peers.toNat) (room : peers.toNat + 1 < UInt64.size) :
    threshold? peers = .ok (majority peers.toNat) := by
  have positive : peers ≠ 0 := by
    rintro rfl
    exact absurd low (by decide)
  rw [threshold?_eq positive, wordMajority?_eq_ok room]
  rfl

inductive ConsensusError where
  | invalidPeerCount
  | unknownProposal (origin : Origin) (id : SequenceId)
  | alreadyCollecting (id : SequenceId)
deriving DecidableEq, Repr

namespace ConsensusError

def message : ConsensusError → String
  | invalidPeerCount => "peer count must be at least 1"
  | unknownProposal origin id =>
    "confirmation from " ++ origin.name ++ " references unknown proposal " ++ toString id
  | alreadyCollecting id => "proposal " ++ toString id ++ " is already being collected"

end ConsensusError

end GossipNode
