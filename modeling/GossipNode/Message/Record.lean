import GossipNode.Message.Packet
/-!
# Records

The packets that are stored and passed on: rumors, proposals and block announcements.  Every record has
an origin and a number among the records of that origin.
-/
namespace GossipNode

inductive Record where
  | rumor (m : Rumor)
  | proposal (m : Proposal)
  | block (m : BlockAnnouncement)
deriving DecidableEq, Repr

namespace Record

def origin : Record → Origin
  | rumor m => m.origin
  | proposal m => m.origin
  | block m => m.origin

def id : Record → SequenceId
  | rumor m => m.id
  | proposal m => m.id
  | block m => m.id

def withId (i : SequenceId) : Record → Record
  | rumor m => rumor { m with id := i }
  | proposal m => proposal { m with id := i }
  | block m => block { m with id := i }

def isHeartbeat : Record → Bool
  | rumor m => m.text == ""
  | _ => false

/-- A proposal that confirms nothing yet. -/
def isUnconfirmedProposal : Record → Bool
  | proposal m => m.confirmed.isNone
  | _ => false

def kind : Record → String
  | rumor m => if m.text = "" then "heartbeat" else "rumor"
  | proposal m => if m.confirmed.isSome then "confirmation" else "proposal"
  | block _ => "block"

def toPacket : Record → Packet
  | rumor m => .rumor m
  | proposal m => .proposal m
  | block m => .block m

def ofPacket? : Packet → Option Record
  | .rumor m => some (rumor m)
  | .proposal m => some (proposal m)
  | .block m => some (block m)
  | _ => none

@[simp] theorem ofPacket?_toPacket (r : Record) : ofPacket? r.toPacket = some r := by
  cases r <;> rfl

/-- Origin and number, as task names and logs show them. -/
def label (r : Record) : String := r.origin.name ++ "#" ++ toString r.id

end Record

end GossipNode
