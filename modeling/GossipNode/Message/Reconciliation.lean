import GossipNode.Message.Status
/-!
# Comparing what two nodes have seen

Being ahead takes precedence over being behind: a node that is both pushes first and lets the answer
to its push pull.
-/
namespace GossipNode

inductive Reconciliation where
  | inSync
  /-- Something can be pushed; the origin is the first where this node is ahead. -/
  | selfAhead (origin : Origin)
  /-- There is only something to be asked for. -/
  | peerAhead
deriving DecidableEq, Repr

namespace Reconciliation

def isInSync : Reconciliation → Bool
  | inSync => true
  | _ => false

end Reconciliation

namespace StatusVector

def reconcile (own peer : StatusVector) : Reconciliation :=
  match own.entries.find? (fun e => peer.next e.1 < e.2) with
  | some e => .selfAhead e.1
  | none => if peer.entries.any (fun e => own.next e.1 < e.2) then .peerAhead else .inSync

end StatusVector

end GossipNode
