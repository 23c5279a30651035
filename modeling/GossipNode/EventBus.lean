import GossipNode.Message.Packet
/-!
# Events

What observers of a node are told, and the bus that tells them.  The bus keeps a bounded number of the
latest events; an observer that falls further behind is told how many it lost, and goes on with the
oldest event that is kept.
-/
namespace GossipNode

inductive NodeEvent where
  /-- A rumor with a text was accepted from a peer. -/
  | rumorReceived (origin : Origin) (id : SequenceId) (text : String)
  | privateReceived (origin : Origin) (text : String)
  /-- A packet that is for whoever shares files here. -/
  | contentPacket (packet : Packet)
  | proposalConfirmed (origin : Origin) (proposalId : SequenceId) (transaction : Transaction)
  /-- A round closed; `round` is the one now open. -/
  | roundAdvanced (round : UInt32) (witnesses : List Origin)
  | blockAppended (topic : String) (block : Block)
deriving DecidableEq, Repr

/-- An event on one line, blocks by the first octets of their hashes. -/
def NodeEvent.line : NodeEvent → String
  | rumorReceived o id text => "rumor " ++ o.name ++ " " ++ toString id ++ " " ++ text
  | privateReceived o text => "private " ++ o.name ++ " " ++ text
  | contentPacket p => "content " ++ p.kind
  | proposalConfirmed o id tx => "confirmed " ++ o.name ++ " " ++ toString id ++ " " ++ tx.name
  | roundAdvanced round _ => "round " ++ toString round
  | blockAppended topic b =>
    "block " ++ topic ++ " " ++ toString b.round ++ " " ++
      Text.Hex.encode (b.currentHash.octets.take 4) ++ " " ++ b.voter.getD ""

/-- What an observer gets when it asks. -/
inductive Received (α : Type) where
  | event (e : α)
  | lagged (lost : Nat)
  | empty
deriving DecidableEq, Repr

/-- The events kept, how many have been emitted, and how far each observer has come. -/
structure EventBus (α : Type) where
  capacity : Nat
  kept : List α
  emitted : Nat
  observers : List Nat
deriving DecidableEq, Repr

namespace EventBus

variable {α : Type}

def new (capacity : Nat) : EventBus α := ⟨capacity, [], 0, []⟩

/-- A new observer, which gets what is emitted from now on; its number. -/
def subscribe (b : EventBus α) : Nat × EventBus α :=
  (b.observers.length, { b with observers := b.observers ++ [b.emitted] })

/-- Emit an event.  Without observers nothing is kept. -/
def emit (b : EventBus α) (e : α) : EventBus α :=
  if b.observers.isEmpty then b
  else
    let kept := b.kept ++ [e]
    { b with kept := kept.drop (kept.length - b.capacity), emitted := b.emitted + 1 }

def receive (b : EventBus α) (observer : Nat) : Received α × EventBus α :=
  let position := b.observers.getD observer b.emitted
  let oldest := b.emitted - b.kept.length
  let moveTo (n : Nat) : EventBus α := { b with observers := b.observers.set observer n }
  if position < oldest then (.lagged (oldest - position), moveTo oldest)
  else
    match b.kept[position - oldest]? with
    | some e => (.event e, moveTo (position + 1))
    | none => (.empty, b)

end EventBus

end GossipNode
